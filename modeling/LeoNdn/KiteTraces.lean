import LeoNdn.KiteRoutes
import LeoNdn.LinkBalance
import LeoNdn.Traces

/-!
The traces that KITE acknowledgments leave in a network of forwarders. A route that a
node learns leads to where the request has come from, and from there on, hop by hop,
back to the place where the request has entered the network.
-/

namespace LeoNdn.KiteTraces

open LeoNdn.Tlv LeoNdn.NdnPacket LeoNdn.KiteProtocol LeoNdn.PitPipelines LeoNdn.Schedulers LeoNdn.Traces
open LeoNdn.Forwarder (Face isViolatingLocalhost isAnnounced)
open LeoNdn.LinkBalance (Wiring Arrives arrivalFace sentBy)

variable {σ κ δ ν : Type}

/-- What requests and their entries are told apart by. -/
def keyOf (interest : Interest σ) : Name × σ := (interest.m_name, interest.m_selectors)

section Node

structure Holds (known : Face → Name × σ → Prop) (s : State σ κ δ) : Prop where
  entries : ∀ entry ∈ s.entries, ∃ face, known face (keyOf entry.m_interest)
  records : ∀ entry ∈ s.entries, ∀ record ∈ entry.m_inRecords, known record.m_face (keyOf entry.m_interest)
  sent : ∀ face interest, (face, Packet.interest interest) ∈ s.sent → ∃ inFace, known inFace (keyOf interest)

variable {known : Face → Name × σ → Prop} {ctx : Context σ κ δ} {s s' : State σ κ δ} {i : ℕ}

def SendsKnown (known : Face → Name × σ → Prop) (actions : List (Action σ)) : Prop :=
  ∀ outFace interest, Action.sendInterest outFace interest ∈ actions → ∃ inFace, known inFace (keyOf interest)

theorem Holds.of_eq (h : Holds known s) (hentries : s'.entries = s.entries) (hsent : s'.sent = s.sent) : Holds known s' :=
  ⟨by rw [hentries]; exact h.entries, by rw [hentries]; exact h.records, by rw [hsent]; exact h.sent⟩

theorem Holds.mono {known' : Face → Name × σ → Prop} (h : Holds known s) (hknown : ∀ face key, known face key → known' face key) :
    Holds known' s := by
  refine ⟨fun entry hentry => ?_, fun entry hentry record hrecord => ?_, fun face interest hsent => ?_⟩
  · obtain ⟨face, hface⟩ := h.entries entry hentry
    exact ⟨face, hknown face _ hface⟩
  · exact hknown _ _ (h.records entry hentry record hrecord)
  · obtain ⟨inFace, hface⟩ := h.sent face interest hsent
    exact ⟨inFace, hknown inFace _ hface⟩

theorem holds_initial (m_cs : κ) (m_deadNonceList : δ) : Holds known (State.initial m_cs m_deadNonceList : State σ κ δ) :=
  ⟨fun _ hentry => absurd hentry List.not_mem_nil, fun _ hentry => absurd hentry List.not_mem_nil,
    fun _ _ hsent => absurd hsent List.not_mem_nil⟩

theorem Holds.modifyEntry (h : Holds known s) {f : PitEntry σ → PitEntry σ} (hinterest : ∀ entry, (f entry).m_interest = entry.m_interest)
    (hrecords : ∀ entry, s.entries[i]? = some entry → ∀ record ∈ (f entry).m_inRecords,
      (∃ old ∈ entry.m_inRecords, old.m_face = record.m_face) ∨ known record.m_face (keyOf entry.m_interest)) :
    Holds known (s.modifyEntry i f) := by
  have hcases : ∀ entry' ∈ (s.modifyEntry i f).entries, entry' ∈ s.entries ∨ ∃ entry ∈ s.entries, s.entries[i]? = some entry ∧
      entry' = f entry := by
    intro entry' hentry'
    obtain ⟨j, hj⟩ := List.getElem?_of_mem hentry'
    rw [State.modifyEntry, List.getElem?_modify] at hj
    obtain ⟨entry, hentry, heq⟩ := Option.map_eq_some_iff.mp hj
    by_cases hij : i = j
    · subst hij
      rw [if_pos rfl] at heq
      exact Or.inr ⟨entry, List.mem_of_getElem? hentry, hentry, heq.symm⟩
    · rw [if_neg hij] at heq
      subst heq
      exact Or.inl (List.mem_of_getElem? hentry)
  refine ⟨fun entry' hentry' => ?_, fun entry' hentry' record hrecord => ?_, h.sent⟩
  · rcases hcases entry' hentry' with hold | ⟨entry, hentry, -, rfl⟩
    · exact h.entries entry' hold
    · rw [hinterest]
      exact h.entries entry hentry
  · rcases hcases entry' hentry' with hold | ⟨entry, hentry, hat, rfl⟩
    · exact h.records entry' hold record hrecord
    · rw [hinterest]
      rcases hrecords entry hat record hrecord with ⟨old, hold, hface⟩ | hnew
      · rw [← hface]
        exact h.records entry hentry old hold
      · exact hnew

theorem Holds.shrink (h : Holds known s) {f : PitEntry σ → PitEntry σ} (hinterest : ∀ entry, (f entry).m_interest = entry.m_interest)
    (hrecords : ∀ entry, (f entry).m_inRecords ⊆ entry.m_inRecords) : Holds known (s.modifyEntry i f) :=
  h.modifyEntry hinterest fun entry _ record hrecord => Or.inl ⟨record, hrecords entry hrecord, rfl⟩

theorem Holds.send (h : Holds known s) {outFace : Face} {packet : Packet σ}
    (hpacket : ∀ interest, packet = .interest interest → ∃ inFace, known inFace (keyOf interest)) :
    Holds known (s.send outFace packet) := by
  refine ⟨h.entries, h.records, fun face interest hsent => ?_⟩
  rcases List.mem_append.mp hsent with hold | hnew
  · exact h.sent face interest hold
  · exact hpacket interest (Prod.mk.inj (List.mem_singleton.mp hnew)).2.symm

theorem Holds.reply (h : Holds known s) {outFace : Face} {packet : Packet σ} (hpacket : FlowBalance.isReply packet = true) :
    Holds known (s.send outFace packet) := by
  refine h.send fun interest heq => ?_
  rw [heq] at hpacket
  cases hpacket

theorem holds_setExpiryTimer (h : Holds known s) (duration : ℤ) : Holds known (s.setExpiryTimer i duration) := by
  have hscheduled : Holds known ((s.cancel (s.timerOf i)).schedule (duration * 1000000) (.onInterestFinalize i)) := h.of_eq rfl rfl
  exact hscheduled.shrink (fun _ => rfl) (fun _ => List.Subset.refl _)

theorem holds_onOutgoingInterest (h : Holds known s) (outFace : Face) {interest : Interest σ}
    (hknown : ∃ inFace, known inFace (keyOf interest)) : Holds known (onOutgoingInterest s i outFace interest) := by
  have hrecorded : Holds known (s.modifyEntry i (insertOrUpdateOutRecord s.now outFace interest)) :=
    h.shrink (fun _ => rfl) (fun _ => List.Subset.refl _)
  refine hrecorded.send fun other heq => ?_
  cases heq
  exact hknown

theorem holds_deleteInRecord (h : Holds known s) (face : Face) : Holds known (s.modifyEntry i (deleteInRecord face)) :=
  h.shrink (fun _ => rfl) (fun _ => List.eraseP_subset)

theorem holds_onOutgoingData (h : Holds known s) (data : Data) (outFace : Face) : Holds known (onOutgoingData s data outFace) := by
  unfold onOutgoingData
  split
  · exact h
  · split
    · exact h
    · exact h.reply rfl

theorem holds_onOutgoingNack (h : Holds known s) (outFace : Face) (reason : ℕ) :
    Holds known (onOutgoingNack s i outFace reason) := by
  unfold onOutgoingNack
  split
  · exact h
  · split
    · exact h
    · split
      · exact h
      · exact (holds_deleteInRecord h outFace).reply rfl

theorem holds_takeAction (h : Holds known s) {action : Action σ}
    (hknown : ∀ outFace interest, action = .sendInterest outFace interest → ∃ inFace, known inFace (keyOf interest)) :
    Holds known (takeAction s i action) := by
  cases action with
  | sendInterest outFace interest => exact holds_onOutgoingInterest h outFace (hknown outFace interest rfl)
  | sendData data outFace => exact holds_onOutgoingData (holds_deleteInRecord h outFace) data outFace
  | sendNack outFace reason => exact holds_onOutgoingNack h outFace reason
  | setExpiryTimer duration => exact holds_setExpiryTimer h duration
  | schedule after => exact h.of_eq rfl rfl
  | cancel id =>
    rw [takeAction]
    split
    · exact h.of_eq rfl rfl
    · exact h

theorem holds_dispatchToStrategy (h : Holds known s) {actions : List (Action σ)} (hknown : SendsKnown known actions) :
    Holds known (dispatchToStrategy i actions s) := by
  induction actions generalizing s with
  | nil => exact h
  | cons action actions ih =>
    refine ih (holds_takeAction h fun outFace interest heq => ?_) fun outFace interest hmem => ?_
    · exact hknown outFace interest (heq ▸ List.mem_cons_self)
    · exact hknown outFace interest (List.mem_cons_of_mem action hmem)

theorem holds_insertDeadNonceList (h : Holds known s) (upstream : Option Face) :
    Holds known (insertDeadNonceList ctx s i upstream) := by
  unfold insertDeadNonceList
  split
  · exact h
  · split
    · exact h
    · exact h.of_eq rfl rfl

theorem holds_onInterestFinalize (h : Holds known s) : Holds known (onInterestFinalize ctx s i) :=
  (holds_insertDeadNonceList h none).of_eq rfl rfl

theorem holds_onInterestLoop (h : Holds known s) (inFace : Face) (interest : Interest σ) :
    Holds known (onInterestLoop s inFace interest) := by
  unfold onInterestLoop
  split
  · exact h
  · exact h.reply rfl

theorem mem_insertOrUpdateInRecord {now : ℤ} {inFace : Face} {interest : Interest σ} {entry : PitEntry σ} {record : InRecord σ}
    (hrecord : record ∈ (insertOrUpdateInRecord now inFace interest entry).m_inRecords) :
    (∃ old ∈ entry.m_inRecords, old.m_face = record.m_face) ∨ record.m_face = inFace := by
  obtain ⟨before, new, after, heq, hface, -, hsublist⟩ := FlowBalance.inRecords_insertOrUpdate now inFace interest entry
  rw [heq, List.perm_middle.mem_iff] at hrecord
  rcases List.mem_cons.mp hrecord with rfl | hold
  · exact Or.inr hface
  · exact Or.inl ⟨record, hsublist.subset hold, rfl⟩

section Arrival

variable {inFace : Face} {interest : Interest σ} {entry : PitEntry σ} {actions : List (Action σ)}

theorem holds_onContentStoreMiss (h : Holds known s) (hentry : s.entries[i]? = some entry)
    (hkey : keyOf entry.m_interest = keyOf interest) (hknown : known inFace (keyOf interest)) (hsends : SendsKnown known actions) :
    Holds known (onContentStoreMiss s inFace i interest actions) := by
  have hinserted : Holds known (s.modifyEntry i (insertOrUpdateInRecord s.now inFace interest)) := by
    refine h.modifyEntry (fun _ => rfl) fun other hother record hrecord => (mem_insertOrUpdateInRecord hrecord).imp_right fun hface => ?_
    obtain rfl : entry = other := Option.some.inj (hentry.symm.trans hother)
    rw [hface, hkey]
    exact hknown
  have htimer := holds_setExpiryTimer (i := i) hinserted
    (lastExpiryFromNow (s.modifyEntry i (insertOrUpdateInRecord s.now inFace interest)) i)
  rw [onContentStoreMiss]
  split
  · split
    · exact holds_onOutgoingInterest htimer _ ⟨inFace, hknown⟩
    · exact htimer
  · exact holds_dispatchToStrategy htimer hsends

theorem holds_onContentStoreHit (h : Holds known s) (data : Data) (hsends : SendsKnown known actions) :
    Holds known (onContentStoreHit s i data actions) := by
  have hmarked : Holds known (s.modifyEntry i (markSatisfied data)) := h.shrink (fun _ => rfl) (fun _ => List.Subset.refl _)
  exact holds_dispatchToStrategy (holds_setExpiryTimer hmarked 0) hsends

theorem keyOf_stripForwardingHint : keyOf (stripForwardingHint ctx interest) = keyOf interest := by
  rw [stripForwardingHint]
  split <;> rfl

theorem holds_insert [DecidableEq σ] (h : Holds known s) (hknown : known inFace (keyOf interest)) :
    Holds known (PitPipelines.insert s interest).1 := by
  unfold PitPipelines.insert
  split
  · exact h
  · refine ⟨fun entry hentry => ?_, fun entry hentry record hrecord => ?_, h.sent⟩
    · rcases List.mem_append.mp hentry with hold | hnew
      · exact h.entries entry hold
      · rw [List.mem_singleton.mp hnew]
        exact ⟨inFace, hknown⟩
    · rcases List.mem_append.mp hentry with hold | hnew
      · exact h.records entry hold record hrecord
      · rw [List.mem_singleton.mp hnew] at hrecord
        cases hrecord

theorem holds_onIncomingInterest [DecidableEq σ] (h : Holds known s) (hknown : known inFace (keyOf interest))
    (hsends : SendsKnown known actions) : Holds known (onIncomingInterest ctx s inFace interest actions) := by
  unfold onIncomingInterest
  split
  · exact h
  · split
    · exact holds_onInterestLoop h inFace interest
    · obtain ⟨entry, hentry, hname, hselectors⟩ := FlowBalance.insert_entry s (stripForwardingHint ctx interest)
      have hstripped : keyOf (stripForwardingHint ctx interest) = keyOf interest := keyOf_stripForwardingHint
      rw [← hstripped] at hknown
      have hinserted := holds_insert h hknown
      have hkey : keyOf entry.m_interest = keyOf (stripForwardingHint ctx interest) := Prod.ext hname.symm hselectors.symm
      dsimp only
      rw [hentry]
      dsimp only
      unfold onPitEntry
      split
      · exact holds_onInterestLoop hinserted inFace _
      · split
        · split
          · exact holds_onContentStoreHit hinserted _ hsends
          · exact holds_onContentStoreMiss hinserted hentry hkey hknown hsends
        · exact holds_onContentStoreMiss hinserted hentry hkey hknown hsends

end Arrival

section Replies

variable {inFace : Face} {data : Data} {actions : ℕ → List (Action σ)}

theorem holds_satisfied (h : Holds known s) (hsends : SendsKnown known (actions i)) :
    Holds known (insertDeadNonceList ctx ((dispatchToStrategy i (actions i) (s.setExpiryTimer i 0)).modifyEntry i (markSatisfied data))
      i (some inFace)) := by
  have hdispatched := holds_dispatchToStrategy (i := i) (holds_setExpiryTimer (i := i) h 0) hsends
  have hmarked : Holds known ((dispatchToStrategy i (actions i) (s.setExpiryTimer i 0)).modifyEntry i (markSatisfied data)) :=
    hdispatched.shrink (fun _ => rfl) (fun _ => List.Subset.refl _)
  exact holds_insertDeadNonceList hmarked (some inFace)

theorem holds_satisfyOnlyEntry (h : Holds known s) (hsends : SendsKnown known (actions i)) :
    Holds known (satisfyOnlyEntry ctx s inFace data i (actions i)) :=
  (holds_satisfied h hsends).shrink (fun _ => rfl) (fun _ => List.Subset.refl _)

theorem holds_satisfyEntry (h : Holds known s) (hsends : SendsKnown known (actions i)) :
    Holds known (satisfyEntry ctx s inFace data i (actions i)) := by
  have hcleared : Holds known ((insertDeadNonceList ctx ((dispatchToStrategy i (actions i) (s.setExpiryTimer i 0)).modifyEntry i
      (markSatisfied data)) i (some inFace)).modifyEntry i clearInRecords) :=
    (holds_satisfied h hsends).shrink (fun _ => rfl) (fun _ => List.nil_subset _)
  exact hcleared.shrink (fun _ => rfl) (fun _ => List.Subset.refl _)

theorem holds_satisfyEntries {pitMatches : List ℕ} {pending : List Face} (h : Holds known s)
    (hsends : ∀ i ∈ pitMatches, SendsKnown known (actions i)) :
    Holds known (satisfyEntries ctx inFace data actions pitMatches pending s).2 := by
  induction pitMatches generalizing s pending with
  | nil => exact h
  | cons i pitMatches ih =>
    exact ih (holds_satisfyEntry h (hsends i List.mem_cons_self)) fun j hj => hsends j (List.mem_cons_of_mem i hj)

theorem holds_sendToDownstreams {faces : List Face} (h : Holds known s) : Holds known (sendToDownstreams inFace data faces s) := by
  induction faces generalizing s with
  | nil => exact h
  | cons face faces ih =>
    refine ih ?_
    split
    · exact h
    · exact holds_onOutgoingData h data face

theorem holds_satisfyMatches {pitMatches : List ℕ} (h : Holds known s) (hsends : ∀ i ∈ pitMatches, SendsKnown known (actions i)) :
    Holds known (satisfyMatches ctx s inFace data actions pitMatches) := by
  have hcached : Holds known { s with m_cs := ctx.insertCs data false s.m_cs } := h.of_eq rfl rfl
  unfold satisfyMatches
  dsimp only
  split
  · exact holds_satisfyOnlyEntry hcached (hsends _ List.mem_cons_self)
  · exact holds_sendToDownstreams (holds_satisfyEntries hcached hsends)

theorem holds_onIncomingData (h : Holds known s) (hsends : ∀ i ∈ findAllDataMatches ctx s data, SendsKnown known (actions i)) :
    Holds known (onIncomingData ctx s inFace data actions) := by
  unfold onIncomingData
  split
  · exact h
  · split
    · unfold onDataUnsolicited
      split
      · exact h.of_eq rfl rfl
      · exact h
    · rename_i i pitMatches hmatches
      rw [hmatches] at hsends
      split
      · split
        · exact h
        · obtain ⟨hentries, -, hsent⟩ := FlowBalance.onIncomingKiteAck_eq (i :: pitMatches) s
          exact holds_satisfyMatches (h.of_eq hentries hsent) hsends
      · exact holds_satisfyMatches h hsends

theorem holds_onIncomingNack [DecidableEq σ] {reason : ℕ} {interest : Interest σ} {actions : List (Action σ)} (h : Holds known s)
    (hsends : ∀ i, PitPipelines.find s interest = some i → SendsKnown known actions) :
    Holds known (onIncomingNack s inFace reason interest actions) := by
  unfold onIncomingNack
  split
  · exact h
  · split
    · exact h
    · rename_i i hfound
      split
      · exact h
      · split
        · exact h
        · have hnacked : Holds known (s.modifyEntry i (setIncomingNack inFace reason)) :=
            h.shrink (fun _ => rfl) (fun _ => List.Subset.refl _)
          refine holds_dispatchToStrategy ?_ (hsends i hfound)
          split
          · exact hnacked
          · exact holds_setExpiryTimer hnacked 0

theorem holds_onNewNextHop {affected : List (ℕ × List (Action σ))} (h : Holds known s)
    (hsends : ∀ entry ∈ affected, SendsKnown known entry.2) : Holds known (onNewNextHop affected s) := by
  induction affected generalizing s with
  | nil => exact h
  | cons entry affected ih =>
    refine ih ?_ fun other hother => hsends other (List.mem_cons_of_mem entry hother)
    split
    · exact holds_dispatchToStrategy h (hsends entry List.mem_cons_self)
    · exact h

theorem holds_cleanupOnFaceRemoval {face : Face} {pit : List ℕ} (h : Holds known s) :
    Holds known (cleanupOnFaceRemoval face pit s) := by
  induction pit generalizing s with
  | nil => exact h
  | cons i pit ih => exact ih (h.shrink (fun _ => rfl) (fun _ => List.eraseP_subset))

end Replies

section Steps

/-- What a strategy sends for an entry is its Interest, with another Nonce or hint at most. -/
def Passes (s : State σ κ δ) (i : ℕ) (actions : List (Action σ)) : Prop :=
  ∀ outFace interest, Action.sendInterest outFace interest ∈ actions →
    ∃ entry, s.entries[i]? = some entry ∧ keyOf interest = keyOf entry.m_interest

/-- For an Interest that comes in, the entry may be a new one. -/
def Forwards [DecidableEq σ] (ctx : Context σ κ δ) (s : State σ κ δ) : Event σ κ δ → Prop
  | .incomingInterest _ interest actions =>
    ∀ outFace other, Action.sendInterest outFace other ∈ actions → keyOf other = keyOf interest
  | .incomingData _ data actions => ∀ i ∈ findAllDataMatches ctx s data, Passes s i (actions i)
  | .incomingNack _ _ interest actions => ∀ i, PitPipelines.find s interest = some i → Passes s i actions
  | .newNextHop affected => ∀ entry ∈ affected, Passes s entry.1 entry.2
  | .executeEvent actions => ∀ popped, s.scheduler.popExpired s.now = some popped →
      ∀ i, popped.1.callback = .strategy i → Passes s i actions
  | _ => True

theorem Passes.sendsKnown {actions : List (Action σ)} (hpasses : Passes s i actions) (h : Holds known s) :
    SendsKnown known actions := by
  intro outFace interest hsend
  obtain ⟨entry, hentry, hkey⟩ := hpasses outFace interest hsend
  rw [hkey]
  exact h.entries entry (List.mem_of_getElem? hentry)

theorem holds_step [DecidableEq σ] (h : Holds known s) {event : Event σ κ δ} (hforwards : Forwards ctx s event)
    (hknown : ∀ inFace interest actions, event = .incomingInterest inFace interest actions → known inFace (keyOf interest))
    (hstep : step ctx s event = some s') : Holds known s' := by
  cases event with
  | advance duration =>
    cases hstep
    exact h.of_eq rfl rfl
  | addFace face =>
    cases hstep
    exact h.of_eq rfl rfl
  | removeFace id =>
    obtain ⟨face, -, rfl⟩ := Option.map_eq_some_iff.mp hstep
    exact (holds_cleanupOnFaceRemoval h).of_eq rfl rfl
  | incomingInterest inFace interest actions =>
    cases hstep
    refine holds_onIncomingInterest h (hknown inFace interest actions rfl) fun outFace other hsend => ?_
    rw [hforwards outFace other hsend]
    exact ⟨inFace, hknown inFace interest actions rfl⟩
  | incomingData inFace data actions =>
    cases hstep
    exact holds_onIncomingData h fun i hi => (hforwards i hi).sendsKnown h
  | incomingNack inFace reason interest actions =>
    cases hstep
    exact holds_onIncomingNack h fun i hi => (hforwards i hi).sendsKnown h
  | newNextHop affected =>
    cases hstep
    exact holds_onNewNextHop h fun entry hentry => (hforwards entry hentry).sendsKnown h
  | executeEvent actions =>
    obtain ⟨popped, hpop, rfl⟩ := Option.map_eq_some_iff.mp hstep
    have hpopped : Holds known { s with scheduler := popped.2 } := h.of_eq rfl rfl
    cases hcallback : popped.1.callback with
    | onInterestFinalize i => exact holds_onInterestFinalize hpopped
    | strategy i =>
      rw [runCallback]
      split
      · exact holds_dispatchToStrategy hpopped ((hforwards popped hpop i hcallback).sendsKnown h)
      · exact hpopped
    | other => exact hpopped
  | scheduleOther after =>
    cases hstep
    exact h.of_eq rfl rfl
  | cancelOther id =>
    rw [step] at hstep
    split at hstep
    · cases hstep
      exact h.of_eq rfl rfl
    · cases hstep
  | changeTables m_cs m_deadNonceList =>
    cases hstep
    exact h.of_eq rfl rfl

end Steps

end Node

section Network

/-- A call of `slAnnounce`, and the route that comes of it; it stands with the entry that
the acknowledgment has answered. -/
structure Announcement (σ : Type) where
  m_announcedName : Name
  inFace : Face
  pitEntry : Interest σ
  data : Data
  deriving DecidableEq, Repr

def announceEntry (now : ℤ) (data : Data) (ack : Ack) (entry : PitEntry σ) : List (Announcement σ) :=
  (entry.m_inRecords.filter (fun record => isAnnounced now record.toFaceRecord)).map (fun record =>
    ⟨ack.m_prefixAnn.m_announcedName, record.m_face, entry.m_interest, data⟩)

def announcements (ctx : Context σ κ δ) (s : State σ κ δ) : Event σ κ δ → List (Announcement σ)
  | .incomingData inFace data _ =>
    if isViolatingLocalhost inFace data = false ∧ data.getContentType = 6 then
      match Ack.ofData ctx.fromIsoString data with
      | .error _ => []
      | .ok ack => (findAllDataMatches ctx s data).flatMap (fun i => (s.entries[i]?).elim [] (announceEntry s.now data ack))
    else []
  | _ => []

def isPulled (now : ℤ) (namePrefix : Name) (outFace : Face) (entry : PitEntry σ) : Bool :=
  Name.isPrefixOf namePrefix entry.m_interest.m_name && entry.m_inRecords.any (fun record => record.m_expiry > now) &&
    ! entry.m_inRecords.any (fun record => record.m_face = outFace) && ! entry.m_outRecords.any (fun record => record.m_face = outFace)

/-- The nodes, with the calls that they have still to make, the routes that they have
learned and the pulled Interests that are still to be sent; and what has come in. -/
structure Network (ν σ κ δ : Type) where
  nodes : ν → State σ κ δ
  posted : ν → Multiset (Announcement σ)
  routes : ν → Multiset (Announcement σ)
  pulls : ν → Multiset (Face × Interest σ)
  inFlight : Multiset ((ν × Face) × Packet σ)
  history : List ((ν × Face) × (Name × σ))

def arrivals (n : ν) : Event σ κ δ → List ((ν × Face) × (Name × σ))
  | .incomingInterest inFace interest _ => [((n, inFace), keyOf interest)]
  | _ => []

def Network.initial (m_cs : ν → κ) (m_deadNonceList : ν → δ) : Network ν σ κ δ :=
  ⟨fun n => State.initial (m_cs n) (m_deadNonceList n), fun _ => 0, fun _ => 0, fun _ => 0, 0, []⟩

variable [DecidableEq ν] [DecidableEq σ]

def Network.move (ctx : ν → Context σ κ δ) (network : Network ν σ κ δ) (n : ν) (event : Event σ κ δ) (s : State σ κ δ)
    (sent : List (Face × Packet σ)) : Network ν σ κ δ :=
  { network with
    nodes := Function.update network.nodes n s
    posted := Function.update network.posted n (network.posted n + announcements (ctx n) (network.nodes n) event)
    inFlight := network.inFlight + sentBy n sent
    history := arrivals n event ++ network.history }

/-- The RIB may take a route that is announced or not, and may drop it at any time. -/
inductive Step (W : Wiring ν) (ctx : ν → Context σ κ δ) (network : Network ν σ κ δ) : Network ν σ κ δ → Prop
  | own (n : ν) (event : Event σ κ δ) (s : State σ κ δ) (sent : List (Face × Packet σ))
    (hface : ∀ face, arrivalFace event = some face → W.peer (n, face) = none)
    (hforwards : Forwards (ctx n) (network.nodes n) event) (hstep : step (ctx n) (network.nodes n) event = some s)
    (hsent : s.sent = (network.nodes n).sent ++ sent) :
    Step W ctx network (network.move ctx n event s sent)
  | deliver (source target : ν × Face) (packet : Packet σ) (rest : Multiset ((ν × Face) × Packet σ))
    (event : Event σ κ δ) (s : State σ κ δ) (sent : List (Face × Packet σ))
    (hflight : network.inFlight = (source, packet) ::ₘ rest) (hpeer : W.peer source = some target)
    (harrives : Arrives target.2 packet event) (hforwards : Forwards (ctx target.1) (network.nodes target.1) event)
    (hstep : step (ctx target.1) (network.nodes target.1) event = some s)
    (hsent : s.sent = (network.nodes target.1).sent ++ sent) :
    Step W ctx network (Network.move ctx { network with inFlight := rest } target.1 event s sent)
  | lose (source : ν × Face) (packet : Packet σ) (rest : Multiset ((ν × Face) × Packet σ))
    (hflight : network.inFlight = (source, packet) ::ₘ rest) :
    Step W ctx network { network with inFlight := rest }
  | announce (n : ν) (call : Announcement σ) (rest : Multiset (Announcement σ)) (pulled : List (PitEntry σ))
    (hposted : network.posted n = call ::ₘ rest)
    (hpulled : ∀ entry ∈ pulled, (∃ i ∈ (network.nodes n).m_pit, (network.nodes n).entries[i]? = some entry) ∧
      isPulled (network.nodes n).now call.m_announcedName call.inFace entry = true) :
    Step W ctx network { network with
      posted := Function.update network.posted n rest
      routes := Function.update network.routes n (call ::ₘ network.routes n)
      pulls := Function.update network.pulls n
        (network.pulls n + pulled.map (fun entry => (call.inFace, entry.m_interest))) }
  | reject (n : ν) (call : Announcement σ) (rest : Multiset (Announcement σ)) (hposted : network.posted n = call ::ₘ rest) :
    Step W ctx network { network with posted := Function.update network.posted n rest }
  | withdraw (n : ν) (route : Announcement σ) (rest : Multiset (Announcement σ)) (hroutes : network.routes n = route ::ₘ rest) :
    Step W ctx network { network with routes := Function.update network.routes n rest }
  | pull (n : ν) (outFace : Face) (interest : Interest σ) (rest : Multiset (Face × Interest σ))
    (hpulls : network.pulls n = (outFace, interest) ::ₘ rest) :
    Step W ctx network { network with
      pulls := Function.update network.pulls n rest
      inFlight := ((n, outFace), .interest interest) ::ₘ network.inFlight }

end Network

section Simulation

variable {W : Wiring ν} {ctx : ν → Context σ κ δ} {network network' : Network ν σ κ δ}
  {n : ν} {event : Event σ κ δ} {s : State σ κ δ} {sent : List (Face × Packet σ)}

def requestsIn (packets : Multiset ((ν × Face) × Packet σ)) : Set ((ν × Face) × (Name × σ)) :=
  {request | ∃ interest, (request.1, Packet.interest interest) ∈ packets ∧ request.2 = keyOf interest}

def flowOf (network : Network ν σ κ δ) : Flow (ν × Face) (Name × σ) := ⟨network.history, requestsIn network.inFlight⟩

def Flows (W : Wiring ν) (flow : Flow (ν × Face) (Name × σ)) : Prop :=
  Relation.ReflTransGen (Flow.Step Prod.fst W.peer) ⟨[], ∅⟩ flow

/-- An announcement is for where a request has come from, and is made by the acknowledgment that answers this. -/
structure Grounded (ctx : Context σ κ δ) (n : ν) (history : List ((ν × Face) × (Name × σ))) (call : Announcement σ) : Prop where
  requested : ((n, call.inFace), keyOf call.pitEntry) ∈ history
  answered : ctx.matchesData call.pitEntry call.data = true
  acknowledged : ∃ ack, Ack.ofData ctx.fromIsoString call.data = .ok ack ∧ ack.m_prefixAnn.m_announcedName = call.m_announcedName
  remote : call.inFace.scope ≠ .scopeLocal

structure Grows (W : Wiring ν) (ctx : ν → Context σ κ δ) (network : Network ν σ κ δ) : Prop where
  flow : Flows W (flowOf network)
  holds : ∀ n, Holds (fun face key => ((n, face), key) ∈ network.history) (network.nodes n)
  pulls : ∀ n, ∀ pulled ∈ network.pulls n, ∃ face, ((n, face), keyOf pulled.2) ∈ network.history
  grounded : ∀ n call, call ∈ network.posted n ∨ call ∈ network.routes n → Grounded (ctx n) n network.history call

theorem requestsIn_add (packets packets' : Multiset ((ν × Face) × Packet σ)) :
    requestsIn (packets + packets') = requestsIn packets ∪ requestsIn packets' := by
  ext request
  simp only [requestsIn, Set.mem_ofPred_eq, Set.mem_union, Multiset.mem_add]
  constructor
  · rintro ⟨interest, hin | hin, hkey⟩
    · exact Or.inl ⟨interest, hin, hkey⟩
    · exact Or.inr ⟨interest, hin, hkey⟩
  · rintro (⟨interest, hin, hkey⟩ | ⟨interest, hin, hkey⟩)
    · exact ⟨interest, Or.inl hin, hkey⟩
    · exact ⟨interest, Or.inr hin, hkey⟩

theorem mem_sentBy {place : ν × Face} {packet : Packet σ} (h : (place, packet) ∈ sentBy n sent) :
    place.1 = n ∧ (place.2, packet) ∈ sent := by
  obtain ⟨message, hmessage, heq⟩ := List.mem_map.mp (Multiset.mem_coe.mp h)
  cases heq
  exact ⟨rfl, hmessage⟩

theorem Flows.send {history : List ((ν × Face) × (Name × σ))} {packets packets' : Multiset ((ν × Face) × Packet σ)}
    (h : Flows W ⟨history, requestsIn packets⟩) (hknown : ∀ source interest, (source, Packet.interest interest) ∈ packets' →
      ∃ face, ((source.1, face), keyOf interest) ∈ history) : Flows W ⟨history, requestsIn (packets + packets')⟩ := by
  rw [requestsIn_add]
  refine h.tail (Flow.Step.send _ ?_)
  rintro ⟨source, key⟩ ⟨interest, hin, hkey⟩
  obtain ⟨face, hface⟩ := hknown source interest hin
  dsimp only at hkey
  rw [← hkey] at hface
  exact ⟨(source.1, face), rfl, hface⟩

theorem mem_announcements {call : Announcement σ} {c : Context σ κ δ} (hcall : call ∈ announcements c s event) :
    ∃ entry ∈ s.entries, ∃ record ∈ entry.m_inRecords, call.inFace = record.m_face ∧ call.pitEntry = entry.m_interest ∧
      c.matchesData entry.m_interest call.data = true ∧ call.inFace.scope ≠ .scopeLocal ∧
      ∃ ack, Ack.ofData c.fromIsoString call.data = .ok ack ∧ ack.m_prefixAnn.m_announcedName = call.m_announcedName := by
  cases event with
  | incomingData inFace data actions =>
    dsimp only [announcements] at hcall
    split at hcall
    · split at hcall
      · cases hcall
      · rename_i ack hack
        obtain ⟨i, hi, hcall⟩ := List.mem_flatMap.mp hcall
        obtain ⟨entry, hentry, hmatch⟩ := (Option.any_eq_true _ _).mp (List.mem_filter.mp hi).2
        rw [hentry, Option.elim_some] at hcall
        obtain ⟨record, hrecord, rfl⟩ := List.mem_map.mp hcall
        obtain ⟨hrecord, hannounced⟩ := List.mem_filter.mp hrecord
        rw [isAnnounced, Bool.and_eq_true, decide_eq_true_eq] at hannounced
        exact ⟨entry, List.mem_of_getElem? hentry, record, hrecord, rfl, rfl, hmatch, hannounced.1, ack, hack, rfl⟩
    · cases hcall
  | _ => cases hcall

theorem Grounded.mono {history history' : List ((ν × Face) × (Name × σ))} {c : Context σ κ δ} {call : Announcement σ}
    (h : Grounded c n history call) (hsub : ∀ request ∈ history, request ∈ history') : Grounded c n history' call :=
  ⟨hsub _ h.requested, h.answered, h.acknowledged, h.remote⟩

variable [DecidableEq ν] [DecidableEq σ]

theorem Grows.move (h : Grows W ctx network) (hforwards : Forwards (ctx n) (network.nodes n) event)
    (hstep : step (ctx n) (network.nodes n) event = some s) (hsent : s.sent = (network.nodes n).sent ++ sent)
    {inFlight : Multiset ((ν × Face) × Packet σ)} (hflow : Flows W ⟨arrivals n event ++ network.history, requestsIn inFlight⟩) :
    Grows W ctx (Network.move ctx { network with inFlight := inFlight } n event s sent) := by
  have hmem : ∀ request ∈ network.history, request ∈ arrivals n event ++ network.history :=
    fun request hrequest => List.mem_append_right _ hrequest
  have hholds : Holds (fun face key => ((n, face), key) ∈ arrivals n event ++ network.history) s := by
    refine holds_step ((h.holds n).mono fun face key hknown => hmem _ hknown) hforwards (fun inFace interest actions heq => ?_) hstep
    rw [heq]
    exact List.mem_cons_self
  refine ⟨hflow.send fun source interest hin => ?_, fun m => ?_, fun m pulled hpulled => ?_, fun m call hcall => ?_⟩
  · obtain ⟨hsource, hin⟩ := mem_sentBy hin
    rw [hsource]
    exact hholds.sent source.2 interest (hsent ▸ List.mem_append_right _ hin)
  · by_cases hm : m = n
    · subst hm
      dsimp only [Network.move]
      rw [Function.update_self]
      exact hholds
    · dsimp only [Network.move]
      rw [Function.update_of_ne hm]
      exact (h.holds m).mono fun face key hknown => hmem _ hknown
  · obtain ⟨face, hface⟩ := h.pulls m pulled hpulled
    exact ⟨face, hmem _ hface⟩
  · rcases hcall with hposted | hroute
    · dsimp only [Network.move] at hposted
      by_cases hm : m = n
      · subst hm
        rw [Function.update_self] at hposted
        rcases Multiset.mem_add.mp hposted with hold | hnew
        · exact (h.grounded m call (Or.inl hold)).mono hmem
        · obtain ⟨entry, hentry, record, hrecord, hface, hinterest, hmatch, hremote, hack⟩ := mem_announcements (Multiset.mem_coe.mp hnew)
          refine ⟨?_, ?_, hack, hremote⟩
          · rw [hface, hinterest]
            exact hmem _ ((h.holds m).records entry hentry record hrecord)
          · rw [hinterest]
            exact hmatch
      · rw [Function.update_of_ne hm] at hposted
        exact (h.grounded m call (Or.inl hposted)).mono hmem
    · exact (h.grounded m call (Or.inr hroute)).mono hmem

omit [DecidableEq ν] [DecidableEq σ] in
theorem Flows.lose {history : List ((ν × Face) × (Name × σ))} {packets rest : Multiset ((ν × Face) × Packet σ)}
    (h : Flows W ⟨history, requestsIn packets⟩) (hle : ∀ packet ∈ rest, packet ∈ packets) : Flows W ⟨history, requestsIn rest⟩ := by
  refine h.tail (Flow.Step.lose _ ?_)
  rintro request ⟨interest, hin, hkey⟩
  exact ⟨interest, hle _ hin, hkey⟩

theorem grows_own (h : Grows W ctx network) (hface : ∀ face, arrivalFace event = some face → W.peer (n, face) = none)
    (hforwards : Forwards (ctx n) (network.nodes n) event) (hstep : step (ctx n) (network.nodes n) event = some s)
    (hsent : s.sent = (network.nodes n).sent ++ sent) : Grows W ctx (network.move ctx n event s sent) := by
  refine h.move hforwards hstep hsent ?_
  cases event with
  | incomingInterest inFace interest actions => exact h.flow.tail (Flow.Step.enter _ _ (hface inFace rfl))
  | _ => exact h.flow

theorem grows_deliver (h : Grows W ctx network) {source target : ν × Face} {packet : Packet σ}
    {rest : Multiset ((ν × Face) × Packet σ)} (hflight : network.inFlight = (source, packet) ::ₘ rest)
    (hpeer : W.peer source = some target) (harrives : Arrives target.2 packet event)
    (hforwards : Forwards (ctx target.1) (network.nodes target.1) event)
    (hstep : step (ctx target.1) (network.nodes target.1) event = some s)
    (hsent : s.sent = (network.nodes target.1).sent ++ sent) :
    Grows W ctx (Network.move ctx { network with inFlight := rest } target.1 event s sent) := by
  have hflow : Flows W ⟨network.history, requestsIn network.inFlight⟩ := h.flow
  have hrest : ∀ other ∈ rest, other ∈ network.inFlight := fun other hother => hflight ▸ Multiset.mem_cons_of_mem hother
  refine h.move hforwards hstep hsent ?_
  cases harrives with
  | @interest interest actions =>
    have hin : (source, keyOf interest) ∈ requestsIn network.inFlight := ⟨interest, hflight ▸ Multiset.mem_cons_self _ _, rfl⟩
    have hdelivered : Flows W ⟨(target, keyOf interest) :: network.history, requestsIn network.inFlight⟩ :=
      hflow.tail (Flow.Step.deliver source target (keyOf interest) hin hpeer)
    exact hdelivered.lose hrest
  | data => exact hflow.lose hrest
  | nack => exact hflow.lose hrest

omit [DecidableEq σ] in
theorem grows_announce (h : Grows W ctx network) {call : Announcement σ} {rest : Multiset (Announcement σ)}
    {pulled : List (PitEntry σ)} (hposted : network.posted n = call ::ₘ rest)
    (hpulled : ∀ entry ∈ pulled, (∃ i ∈ (network.nodes n).m_pit, (network.nodes n).entries[i]? = some entry) ∧
      isPulled (network.nodes n).now call.m_announcedName call.inFace entry = true) :
    Grows W ctx { network with
      posted := Function.update network.posted n rest
      routes := Function.update network.routes n (call ::ₘ network.routes n)
      pulls := Function.update network.pulls n
        (network.pulls n + pulled.map (fun entry => (call.inFace, entry.m_interest))) } := by
  refine ⟨h.flow, h.holds, fun m other hother => ?_, fun m other hother => ?_⟩
  · by_cases hm : m = n
    · subst hm
      dsimp only at hother
      rw [Function.update_self] at hother
      rcases Multiset.mem_add.mp hother with hold | hnew
      · exact h.pulls m other hold
      · obtain ⟨entry, hentry, rfl⟩ := List.mem_map.mp (Multiset.mem_coe.mp hnew)
        obtain ⟨⟨i, -, hat⟩, -⟩ := hpulled entry hentry
        exact (h.holds m).entries entry (List.mem_of_getElem? hat)
    · dsimp only at hother
      rw [Function.update_of_ne hm] at hother
      exact h.pulls m other hother
  · by_cases hm : m = n
    · subst hm
      dsimp only at hother
      rw [Function.update_self, Function.update_self] at hother
      rcases hother with hrest | hroute
      · exact h.grounded m other (Or.inl (hposted ▸ Multiset.mem_cons_of_mem hrest))
      · rcases Multiset.mem_cons.mp hroute with rfl | hold
        · exact h.grounded m other (Or.inl (hposted ▸ Multiset.mem_cons_self _ _))
        · exact h.grounded m other (Or.inr hold)
    · dsimp only at hother
      rw [Function.update_of_ne hm, Function.update_of_ne hm] at hother
      exact h.grounded m other hother

omit [DecidableEq ν] [DecidableEq σ] in
theorem Grows.forget (h : Grows W ctx network) {posted routes : ν → Multiset (Announcement σ)}
    {pulls : ν → Multiset (Face × Interest σ)} (hposted : ∀ n, posted n ⊆ network.posted n)
    (hroutes : ∀ n, routes n ⊆ network.routes n) (hpulls : ∀ n, pulls n ⊆ network.pulls n) :
    Grows W ctx { network with posted := posted, routes := routes, pulls := pulls } :=
  ⟨h.flow, h.holds, fun n other hother => h.pulls n other (hpulls n hother),
    fun n call hcall => h.grounded n call (hcall.imp (fun hin => hposted n hin) fun hin => hroutes n hin)⟩

omit [DecidableEq σ] in
theorem update_subset {α : Type} {f : ν → Multiset α} {a : α} {rest : Multiset α} (h : f n = a ::ₘ rest) (m : ν) :
    Function.update f n rest m ⊆ f m := by
  by_cases hm : m = n
  · subst hm
    rw [Function.update_self, h]
    exact Multiset.subset_cons rest a
  · rw [Function.update_of_ne hm]
    exact Multiset.Subset.refl _

theorem grows_step (h : Grows W ctx network) (hstep : Step W ctx network network') : Grows W ctx network' := by
  cases hstep with
  | own n event s sent hface hforwards hstep hsent => exact grows_own h hface hforwards hstep hsent
  | deliver source target packet rest event s sent hflight hpeer harrives hforwards hstep hsent =>
    exact grows_deliver h hflight hpeer harrives hforwards hstep hsent
  | lose source packet rest hflight =>
    have hflow : Flows W ⟨network.history, requestsIn network.inFlight⟩ := h.flow
    refine ⟨hflow.lose fun other hother => ?_, h.holds, h.pulls, h.grounded⟩
    rw [hflight]
    exact Multiset.mem_cons_of_mem hother
  | announce n call rest pulled hposted hpulled => exact grows_announce h hposted hpulled
  | reject n call rest hposted =>
    exact h.forget (update_subset hposted) (fun _ => Multiset.Subset.refl _) (fun _ => Multiset.Subset.refl _)
  | withdraw n route rest hroutes =>
    exact h.forget (fun _ => Multiset.Subset.refl _) (update_subset hroutes) (fun _ => Multiset.Subset.refl _)
  | pull n outFace interest rest hpulls =>
    have hforgotten := h.forget (fun _ => Multiset.Subset.refl _) (fun _ => Multiset.Subset.refl _) (update_subset hpulls)
    have hflow : Flows W ⟨network.history, requestsIn network.inFlight⟩ := h.flow
    refine ⟨?_, hforgotten.holds, hforgotten.pulls, hforgotten.grounded⟩
    have hsent : Flows W ⟨network.history, requestsIn (network.inFlight + {((n, outFace), Packet.interest interest)})⟩ := by
      refine hflow.send fun source other hin => ?_
      cases Multiset.mem_singleton.mp hin
      exact h.pulls n (outFace, interest) (hpulls ▸ Multiset.mem_cons_self _ _)
    rw [add_comm, Multiset.singleton_add] at hsent
    exact hsent

theorem grows_run (m_cs : ν → κ) (m_deadNonceList : ν → δ)
    (hrun : Relation.ReflTransGen (Step W ctx) (Network.initial m_cs m_deadNonceList) network) : Grows W ctx network := by
  induction hrun with
  | refl =>
    refine ⟨?_, fun n => holds_initial (m_cs n) (m_deadNonceList n), fun _ _ hin => absurd hin (Multiset.notMem_zero _),
      fun _ _ hin => hin.elim (fun hin => absurd hin (Multiset.notMem_zero _)) fun hin => absurd hin (Multiset.notMem_zero _)⟩
    have hnone : requestsIn (0 : Multiset ((ν × Face) × Packet σ)) = ∅ := by
      ext request
      simp [requestsIn]
    rw [Flows, flowOf, Network.initial, hnone]
  | tail _ hstep ih => exact grows_step ih hstep

/-- A route that a node has learned from an acknowledgment is for the name that this announces. It leads to where the node
has got the request that is answered, whose trace goes on from there, over the nodes that had got the request before, to the
place where it has entered the network. -/
theorem route_follows_trace (m_cs : ν → κ) (m_deadNonceList : ν → δ)
    (hrun : Relation.ReflTransGen (Step W ctx) (Network.initial m_cs m_deadNonceList) network) {route : Announcement σ}
    (hroute : route ∈ network.routes n) :
    (∃ path, Trace Prod.fst W.peer network.history (keyOf route.pitEntry) (n, route.inFace) path) ∧
      (ctx n).matchesData route.pitEntry route.data = true ∧ route.inFace.scope ≠ .scopeLocal ∧
      ∃ ack, Ack.ofData (ctx n).fromIsoString route.data = .ok ack ∧ ack.m_prefixAnn.m_announcedName = route.m_announcedName := by
  have hgrows := grows_run m_cs m_deadNonceList hrun
  have hgrounded := hgrows.grounded n route (Or.inr hroute)
  exact ⟨(traced_run hgrows.flow).trace _ _ hgrounded.requested, hgrounded.answered, hgrounded.remote, hgrounded.acknowledged⟩

end Simulation

section Example

open KiteRoutes (shortElement aliceRequest answer)
open LinkBalance (link unlinked start)
open PitTimers (plainContext faceOf)

def aliceAnnouncement : List UInt8 :=
  shortElement 6
    (shortElement 7 (shortElement 8 [114, 118] ++ shortElement 8 [97, 108, 105, 99, 101] ++ shortElement 32 [80, 65] ++
        shortElement 8 [0xFD, 1] ++ shortElement 8 [0, 0]) ++
      shortElement 20 (shortElement 24 [5]) ++ shortElement 21 (shortElement 109 [100]) ++
      shortElement 22 (shortElement 27 [0]) ++ shortElement 23 [])

def requestOf : Interest Unit := ⟨aliceRequest, (), 1, 4000, [], none⟩

def asks : Event Unit Unit (List (Name × ℕ)) := .incomingInterest (faceOf 256) requestOf [.sendInterest (faceOf 257) requestOf]

def passes : Event Unit Unit (List (Name × ℕ)) := .incomingInterest (faceOf 258) requestOf [.sendInterest (faceOf 259) requestOf]

def acknowledges : Event Unit Unit (List (Name × ℕ)) := .incomingData (faceOf 259) (answer aliceAnnouncement) (fun _ => [])

def after (s : State Unit Unit (List (Name × ℕ))) (event : Event Unit Unit (List (Name × ℕ))) :
    State Unit Unit (List (Name × ℕ)) := (step plainContext s event).getD s

/-- The network after each of the three steps. -/
def askedNetwork : Network Bool Unit Unit (List (Name × ℕ)) :=
  Network.move (fun _ => plainContext) (Network.initial (fun _ => ()) (fun _ => [])) false asks (after start asks)
    [(faceOf 257, .interest requestOf)]

def passedNetwork : Network Bool Unit Unit (List (Name × ℕ)) :=
  Network.move (fun _ => plainContext) { askedNetwork with inFlight := 0 } true passes (after start passes)
    [(faceOf 259, .interest requestOf)]

def acknowledgedNetwork : Network Bool Unit Unit (List (Name × ℕ)) :=
  Network.move (fun _ => plainContext) passedNetwork true acknowledges (after (after start passes) acknowledges) []

def aliceRoute : Announcement Unit := ⟨[⟨8, [114, 118]⟩, ⟨8, [97, 108, 105, 99, 101]⟩], faceOf 258, requestOf, answer aliceAnnouncement⟩

def learnedNetwork : Network Bool Unit Unit (List (Name × ℕ)) :=
  { acknowledgedNetwork with
    posted := Function.update acknowledgedNetwork.posted true 0
    routes := Function.update acknowledgedNetwork.routes true (aliceRoute ::ₘ 0)
    pulls := Function.update acknowledgedNetwork.pulls true 0 }

theorem announcements_acknowledges : announcements plainContext (after start passes) acknowledges = [aliceRoute] := by
  decide +kernel

theorem forwards_sendInterest (s : State Unit Unit (List (Name × ℕ))) (inFace outFace : Face) :
    Forwards plainContext s (.incomingInterest inFace requestOf [.sendInterest outFace requestOf]) := by
  intro face other hsend
  cases List.mem_singleton.mp hsend
  rfl

theorem route_follows_trace_alice : aliceRoute.m_announcedName = [⟨8, [114, 118]⟩, ⟨8, [97, 108, 105, 99, 101]⟩] ∧
    ∃ path, Trace Prod.fst link.peer learnedNetwork.history (keyOf requestOf) (true, faceOf 258) path := by
  have hask : Step link (fun _ => plainContext) (Network.initial (fun _ => ()) (fun _ => [])) askedNetwork :=
    Step.own false asks (after start asks) _ (unlinked (by decide)) (forwards_sendInterest _ _ _) rfl rfl
  have hpass : Step link (fun _ => plainContext) askedNetwork passedNetwork :=
    Step.deliver (false, faceOf 257) (true, faceOf 258) _ 0 passes (after start passes) _ rfl rfl
      Arrives.interest (forwards_sendInterest _ _ _) rfl rfl
  have hforwards : Forwards plainContext (after start passes) acknowledges :=
    fun _ _ _ _ hsend => absurd hsend List.not_mem_nil
  have hsent : (after (after start passes) acknowledges).sent = (after start passes).sent ++ [] := by decide +kernel
  have hack : Step link (fun _ => plainContext) passedNetwork acknowledgedNetwork :=
    Step.own true acknowledges (after (after start passes) acknowledges) [] (unlinked (by decide)) hforwards rfl hsent
  have hposted : acknowledgedNetwork.posted true = aliceRoute ::ₘ 0 := by
    change (0 : Multiset (Announcement Unit)) + announcements plainContext (after start passes) acknowledges = _
    rw [announcements_acknowledges]
    rfl
  have hlearn : Step link (fun _ => plainContext) acknowledgedNetwork learnedNetwork :=
    Step.announce true aliceRoute 0 [] hposted (List.forall_mem_nil _)
  have hrun := (((Relation.ReflTransGen.single hask).tail hpass).tail hack).tail hlearn
  have hroute : aliceRoute ∈ learnedNetwork.routes true := Multiset.mem_cons_self aliceRoute 0
  exact ⟨rfl, (route_follows_trace (fun _ => ()) (fun _ => []) hrun hroute).1⟩

end Example

end LeoNdn.KiteTraces
