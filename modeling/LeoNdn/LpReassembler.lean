import LeoNdn.Loops
import LeoNdn.LpFragmenter
import Mathlib.Data.Finset.Card

/-!
The reassembler of a link service: fragments wait under their endpoint and the
sequence number of the first fragment until all are there or a timer drops them.
-/

namespace LeoNdn.LpReassembler

open LeoNdn.Tlv LeoNdn.TlvEncoding LeoNdn.LinkService LeoNdn.LpFragmenter LeoNdn.Loops

section Model

abbrev Key := ℕ × ℕ

/-- The drop timer is the time at which it expires, if it is set. -/
structure PartialPacket where
  fragments : List LpPacket
  fragCount : ℕ
  nReceivedFragments : ℕ
  dropTimer : Option ℕ
  deriving DecidableEq, Repr

structure Options where
  nMaxFragments : ℕ
  reassemblyTimeout : ℕ

abbrev PartialPackets := Key → Option PartialPacket

def noPartialPackets : PartialPackets := fun _ => none

abbrev Received := Except Exception (Option (Block × LpPacket))

def readFragIndex (packet : LpPacket) : Except Exception ℕ :=
  if packet.has 82 then packet.get 82 readNonNegativeInteger else .ok 0

def readFragCount (packet : LpPacket) : Except Exception ℕ :=
  if packet.has 83 then packet.get 83 readNonNegativeInteger else .ok 1

/-- The difference is one of 64-bit numbers. -/
def messageIdentifier (sequence fragIndex : ℕ) : ℕ := (sequence + (sequenceLimit - fragIndex)) % sequenceLimit

def doReassembly (pp : PartialPacket) : Except Exception Block := do
  let fragments ← pp.fragments.mapM (fun frag => frag.get 80 decodeFragment)
  Block.ofBuffer fragments.flatten

/-- The entry of the map, which is new where its count is zero. -/
def partialPacket (fragCount : ℕ) (slot : Option PartialPacket) : PartialPacket :=
  let pp := slot.getD ⟨[], 0, 0, none⟩
  if pp.fragCount = 0 then
    { pp with
      fragCount := fragCount
      nReceivedFragments := 0
      fragments := List.replicate fragCount ⟨[]⟩ }
  else pp

/-- The part of `receiveFragment` that works on one entry of the map, and the
entry after it. -/
def addToSlot (options : Options) (now fragIndex fragCount : ℕ) (packet : LpPacket) (slot : Option PartialPacket) :
    Received × Option PartialPacket :=
  let pp := partialPacket fragCount slot
  if fragCount ≠ pp.fragCount then (.ok none, some pp)
  else if (pp.fragments.getD fragIndex ⟨[]⟩).has 81 then (.ok none, some pp)
  else
    let pp := { pp with
      fragments := pp.fragments.set fragIndex packet
      nReceivedFragments := pp.nReceivedFragments + 1 }
    if pp.nReceivedFragments = pp.fragCount then
      match doReassembly pp with
      | .error e => (.error e, some pp)
      | .ok reassembled => (.ok (some (reassembled, pp.fragments.headD ⟨[]⟩)), none)
    else (.ok none, some { pp with dropTimer := some (now + options.reassemblyTimeout) })

/-- The part of `receiveFragment` after its fast path. -/
def addToPartialPacket (options : Options) (now remoteEndpoint : ℕ) (packet : LpPacket) (partials : PartialPackets) :
    Received × PartialPackets :=
  let position := do
    let fragIndex ← readFragIndex packet
    let fragCount ← readFragCount packet
    if ¬ packet.has 81 then .ok none
    else do
      let sequence ← packet.get 81 decodeUint64
      .ok (some (fragIndex, fragCount, messageIdentifier sequence fragIndex))
  match position with
  | .error e => (.error e, partials)
  | .ok none => (.ok none, partials)
  | .ok (some (fragIndex, fragCount, identifier)) =>
    let slot := addToSlot options now fragIndex fragCount packet (partials (remoteEndpoint, identifier))
    (slot.1, Function.update partials (remoteEndpoint, identifier) slot.2)

def receiveFragment (options : Options) (now remoteEndpoint : ℕ) (packet : LpPacket) (partials : PartialPackets) :
    Received × PartialPackets :=
  match readFragment options.nMaxFragments packet with
  | .error e => (.error e, partials)
  | .ok .dropped => (.ok none, partials)
  | .ok (.whole netPkt) => (.ok (some (netPkt, packet)), partials)
  | .ok .incomplete => addToPartialPacket options now remoteEndpoint packet partials

/-- The endpoint and the number of fragments that `beforeTimeout` is given. -/
def timeoutPartialPacket (key : Key) (partials : PartialPackets) : Option (ℕ × ℕ) × PartialPackets :=
  match partials key with
  | none => (none, partials)
  | some pp => (some (key.1, pp.nReceivedFragments), Function.update partials key none)

/-- The scheduler at the time `now`: the timer of a key runs only if it is due. -/
def runTimer (now : ℕ) (key : Key) (partials : PartialPackets) : Option (ℕ × ℕ) × PartialPackets :=
  if (partials key).any (fun pp => pp.dropTimer = some now) then timeoutPartialPacket key partials else (none, partials)

inductive Event
  | receive (now remoteEndpoint : ℕ) (packet : LpPacket)
  | timer (now : ℕ) (key : Key)

inductive Output
  | received (result : Received)
  | timedOut (signal : Option (ℕ × ℕ))

def step (options : Options) (partials : PartialPackets) : Event → Output × PartialPackets
  | .receive now remoteEndpoint packet =>
    let (result, partials) := receiveFragment options now remoteEndpoint packet partials
    (.received result, partials)
  | .timer now key =>
    let (signal, partials) := runTimer now key partials
    (.timedOut signal, partials)

/-- The events of a run with their outputs, and the partial packets after it. -/
def run (options : Options) : PartialPackets → List Event → List (Event × Output) × PartialPackets
  | partials, [] => ([], partials)
  | partials, event :: events =>
    let (output, partials) := step options partials event
    let (history, partials) := run options partials events
    ((event, output) :: history, partials)

end Model

section Collecting

/-- The packet has the fields of the fragment that the reassembler reads; the link
service may have added others. -/
def sameFragment (packet frag : LpPacket) : Bool :=
  [80, 81, 82, 83].all (fun type => find packet.elements type = find frag.elements type)

def indexOf (frags : List LpPacket) (packet : LpPacket) : Option ℕ := frags.findIdx? (sameFragment packet)

def keyOf (remoteEndpoint : ℕ) (frags : List LpPacket) : Key :=
  (remoteEndpoint, ((frags.headD ⟨[]⟩).get 81 decodeUint64).toOption.getD 0)

/-- Of one packet, the fragments that have come since it was delivered last or its
timer expired, each with its time, the latest first. -/
def collect (remoteEndpoint : ℕ) (frags : List LpPacket) (collected : List (ℕ × ℕ)) : Event × Output → List (ℕ × ℕ)
  | (.receive now endpoint packet, .received result) =>
    match if endpoint = remoteEndpoint then indexOf frags packet else none, result with
    | some j, .ok none => if j ∈ collected.map Prod.fst then collected else (j, now) :: collected
    | some _, .ok (some _) => []
    | _, _ => collected
  | (.timer _ key, .timedOut (some _)) => if key = keyOf remoteEndpoint frags then [] else collected
  | _ => collected

def collected (remoteEndpoint : ℕ) (frags : List LpPacket) (history : List (Event × Output)) : List (ℕ × ℕ) :=
  history.foldl (collect remoteEndpoint frags) []

def complete (frags : List LpPacket) (collected : List (ℕ × ℕ)) (j : ℕ) : Bool :=
  (List.range frags.length).all (fun j' => j' = j || j' ∈ collected.map Prod.fst)

structure Waiting (frags : List LpPacket) (collected : List (ℕ × ℕ)) : Prop where
  nodup : (collected.map Prod.fst).Nodup
  lt_length : ∀ j ∈ collected.map Prod.fst, j < frags.length
  incomplete : collected.length < frags.length

theorem Waiting.nil {frags : List LpPacket} (h : 0 < frags.length) : Waiting frags [] :=
  ⟨List.nodup_nil, by simp, h⟩

variable {frags : List LpPacket} {waiting : List (ℕ × ℕ)} {j : ℕ}

theorem complete_iff : complete frags waiting j ↔ List.range frags.length ⊆ j :: waiting.map Prod.fst := by
  simp only [complete, List.all_eq_true, Bool.or_eq_true, decide_eq_true_eq, List.subset_def, List.mem_cons]

theorem Waiting.complete_of_mem (h : Waiting frags waiting) (hmem : j ∈ waiting.map Prod.fst) :
    complete frags waiting j = false := by
  rw [← Bool.not_eq_true, complete_iff]
  intro hsubset
  have hsubset' : List.range frags.length ⊆ waiting.map Prod.fst := fun j' hj' => by
    rcases List.mem_cons.mp (hsubset hj') with rfl | hj'
    · exact hmem
    · exact hj'
  have hlength := (List.nodup_range.subperm hsubset').length_le
  have hincomplete := h.incomplete
  rw [List.length_range, List.length_map] at hlength
  omega

theorem Waiting.complete_of_notMem (h : Waiting frags waiting) (hj : j < frags.length) (hmem : j ∉ waiting.map Prod.fst) :
    complete frags waiting j ↔ waiting.length + 1 = frags.length := by
  have hnodup : (j :: waiting.map Prod.fst).Nodup := List.nodup_cons.mpr ⟨hmem, h.nodup⟩
  have hincomplete := h.incomplete
  rw [complete_iff]
  constructor
  · intro hsubset
    have hlength := (List.nodup_range.subperm hsubset).length_le
    rw [List.length_range, List.length_cons, List.length_map] at hlength
    omega
  · intro hlength
    have hsubset : j :: waiting.map Prod.fst ⊆ List.range frags.length := by
      intro j' hj'
      rw [List.mem_range]
      rcases List.mem_cons.mp hj' with rfl | hj'
      · exact hj
      · exact h.lt_length j' hj'
    have hperm := (hnodup.subperm hsubset).perm_of_length_le (by simp [hlength])
    exact hperm.symm.subset

theorem Waiting.cons (h : Waiting frags waiting) (hj : j < frags.length) (hmem : j ∉ waiting.map Prod.fst)
    (hlength : waiting.length + 1 ≠ frags.length) (now : ℕ) : Waiting frags ((j, now) :: waiting) where
  nodup := List.nodup_cons.mpr ⟨hmem, h.nodup⟩
  lt_length j' hj' := by
    rcases List.mem_cons.mp hj' with rfl | hj'
    · exact hj
    · exact h.lt_length j' hj'
  incomplete := by
    have := h.incomplete
    rw [List.length_cons]
    omega

end Collecting

section Slots

variable {options : Options} {frags : List LpPacket} {waiting : List (ℕ × ℕ)} {j : ℕ}

structure Stored (options : Options) (frags : List LpPacket) (waiting : List (ℕ × ℕ)) (pp : PartialPacket) : Prop where
  fragCount : pp.fragCount = frags.length
  length : pp.fragments.length = frags.length
  nReceivedFragments : pp.nReceivedFragments = waiting.length
  dropTimer : pp.dropTimer = waiting.head?.map (fun latest => latest.2 + options.reassemblyTimeout)
  present : ∀ j ∈ waiting.map Prod.fst, ∀ frag, frags[j]? = some frag →
    ∃ packet, pp.fragments[j]? = some packet ∧ sameFragment packet frag
  absent : ∀ j < frags.length, j ∉ waiting.map Prod.fst → pp.fragments[j]? = some ⟨[]⟩

inductive Slot (options : Options) (frags : List LpPacket) : List (ℕ × ℕ) → Option PartialPacket → Prop
  | empty : Slot options frags [] none
  | stored {waiting : List (ℕ × ℕ)} {pp : PartialPacket} (ne_nil : waiting ≠ []) (stored : Stored options frags waiting pp) :
      Slot options frags waiting (some pp)

theorem Slot.partialPacket_stored {slot : Option PartialPacket} (h : Slot options frags waiting slot)
    (hfrags : 0 < frags.length) : Stored options frags waiting (partialPacket frags.length slot) := by
  cases h with
  | empty =>
    refine ⟨rfl, List.length_replicate, rfl, rfl, by simp, fun j hj _ => ?_⟩
    exact List.getElem?_replicate_of_lt hj
  | stored ne_nil stored =>
    have hne := stored.fragCount
    rw [partialPacket, Option.getD_some, if_neg (by omega)]
    exact stored

theorem Slot.due_iff {slot : Option PartialPacket} (h : Slot options frags waiting slot) (now : ℕ) :
    slot.any (fun pp => pp.dropTimer = some now) ↔
      waiting.head?.map (fun latest => latest.2 + options.reassemblyTimeout) = some now := by
  cases h with
  | empty => simp
  | stored ne_nil stored => simp [stored.dropTimer]

theorem sameFragment_find {packet frag : LpPacket} (h : sameFragment packet frag) {type : ℕ} (htype : type ∈ [80, 81, 82, 83]) :
    find packet.elements type = find frag.elements type := by
  simpa using List.all_eq_true.mp h type htype

theorem has_iff (packet : LpPacket) (type : ℕ) : packet.has type = (find packet.elements type).isSome :=
  List.isSome_find?.symm

theorem has_of_find {packet : LpPacket} {type : ℕ} {element : Block} (h : find packet.elements type = some element) :
    packet.has type = true := by
  rw [has_iff, h]
  rfl

theorem Stored.has_sequence {pp : PartialPacket} (h : Stored options frags waiting pp) {first : ℕ} (hj : j < frags.length)
    (hpieces : ∀ (j : ℕ) (frag : LpPacket), frags[j]? = some frag → ∃ octets, Sequenced frag first j frags.length octets) :
    (pp.fragments.getD j ⟨[]⟩).has 81 = decide (j ∈ waiting.map Prod.fst) := by
  rw [List.getD_eq_getElem?_getD]
  by_cases hmem : j ∈ waiting.map Prod.fst
  · obtain ⟨packet, hpacket, hsame⟩ := h.present j hmem frags[j] (List.getElem?_eq_getElem hj)
    obtain ⟨octets, hpiece⟩ := hpieces j frags[j] (List.getElem?_eq_getElem hj)
    rw [hpacket, Option.getD_some, decide_eq_true hmem]
    exact has_of_find ((sameFragment_find hsame (by decide)).trans hpiece.sequence)
  · rw [h.absent j hj hmem, decide_eq_false hmem]
    rfl

theorem Stored.set {pp : PartialPacket} (h : Stored options frags waiting pp) {frag packet : LpPacket}
    (hfrag : frags[j]? = some frag) (hsame : sameFragment packet frag) (now : ℕ) :
    Stored options frags ((j, now) :: waiting)
      { pp with
        fragments := pp.fragments.set j packet
        nReceivedFragments := pp.nReceivedFragments + 1
        dropTimer := some (now + options.reassemblyTimeout) } where
  fragCount := h.fragCount
  length := by rw [List.length_set, h.length]
  nReceivedFragments := by rw [h.nReceivedFragments, List.length_cons]
  dropTimer := rfl
  present j' hj' frag' hfrag' := by
    have hj : j < frags.length := (List.getElem?_eq_some_iff.mp hfrag).1
    by_cases heq : j = j'
    · subst heq
      obtain rfl := Option.some.inj (hfrag.symm.trans hfrag')
      exact ⟨packet, by rw [List.getElem?_set_self (by rw [h.length]; exact hj)], hsame⟩
    · rw [List.getElem?_set_ne heq]
      rw [List.map_cons, List.mem_cons] at hj'
      exact h.present j' (hj'.resolve_left (Ne.symm heq)) frag' hfrag'
  absent j' hlt hj' := by
    rw [List.map_cons, List.mem_cons, not_or] at hj'
    rw [List.getElem?_set_ne (Ne.symm hj'.1)]
    exact h.absent j' hlt hj'.2

theorem doReassembly_ok {pp : PartialPacket} {netPkt : Block} {first : ℕ} (hencodable : Encodable netPkt)
    (hlength : pp.fragments.length = frags.length)
    (hsame : ∀ (j : ℕ) (frag : LpPacket), frags[j]? = some frag →
      ∃ packet, pp.fragments[j]? = some packet ∧ sameFragment packet frag)
    (hpieces : ∀ (j : ℕ) (frag : LpPacket), frags[j]? = some frag → ∃ octets, Sequenced frag first j frags.length octets)
    (hjoin : frags.flatMap fragmentOctets = wire netPkt) : doReassembly pp = .ok netPkt := by
  have hget : ∀ packet ∈ pp.fragments, packet.get 80 decodeFragment = .ok (fragmentOctets packet) := by
    intro packet hmem
    obtain ⟨j, hj, rfl⟩ := List.getElem_of_mem hmem
    obtain ⟨packet, hpacket, hsame⟩ := hsame j frags[j] (List.getElem?_eq_getElem (by omega))
    obtain ⟨octets, hpiece⟩ := hpieces j frags[j] (List.getElem?_eq_getElem (by omega))
    rw [List.getElem?_eq_getElem hj] at hpacket
    obtain rfl := Option.some.inj hpacket
    have hfind := (sameFragment_find hsame (by decide)).trans hpiece.fragment
    rw [LpPacket.get, fragmentOctets, hfind]
    exact if_neg hpiece.ne_nil
  have hmap : pp.fragments.map fragmentOctets = frags.map fragmentOctets := by
    refine List.ext_getElem (by simp [hlength]) fun j hj hj' => ?_
    rw [List.length_map] at hj hj'
    obtain ⟨packet, hpacket, hsame⟩ := hsame j frags[j] (List.getElem?_eq_getElem hj')
    rw [List.getElem?_eq_getElem hj] at hpacket
    obtain rfl := Option.some.inj hpacket
    rw [List.getElem_map, List.getElem_map, fragmentOctets, fragmentOctets, sameFragment_find hsame (by decide)]
  rw [doReassembly, mapM_ok hget, hmap]
  simp only [bind, Except.bind]
  rw [← List.flatMap_def, hjoin, ofBuffer_wire hencodable]

theorem indexOf_spec {packet : LpPacket} (h : indexOf frags packet = some j) :
    j < frags.length ∧ ∃ frag, frags[j]? = some frag ∧ sameFragment packet frag := by
  obtain ⟨hj, hsame, -⟩ := List.findIdx?_eq_some_iff_getElem.mp h
  exact ⟨hj, frags[j], List.getElem?_eq_getElem hj, hsame⟩

/-- What the fragments wait for after the fragment at `j` has come. -/
def nextWaiting (frags : List LpPacket) (waiting : List (ℕ × ℕ)) (j now : ℕ) : List (ℕ × ℕ) :=
  if complete frags waiting j then [] else if j ∈ waiting.map Prod.fst then waiting else (j, now) :: waiting

theorem collect_indexOf (waiting : List (ℕ × ℕ)) {remoteEndpoint : ℕ} {packet : LpPacket}
    (hindex : indexOf frags packet = some j) (now : ℕ) (delivered : Block × LpPacket) :
    collect remoteEndpoint frags waiting (.receive now remoteEndpoint packet,
      .received (.ok (if complete frags waiting j then some delivered else none))) = nextWaiting frags waiting j now := by
  simp only [collect, nextWaiting, if_true, hindex]
  cases complete frags waiting j <;> rfl

theorem collect_none {remoteEndpoint endpoint : ℕ} {packet : LpPacket}
    (hnone : endpoint = remoteEndpoint → indexOf frags packet = none) (now : ℕ) (result : Received) :
    collect remoteEndpoint frags waiting (.receive now endpoint packet, .received result) = waiting := by
  have hindex : (if endpoint = remoteEndpoint then indexOf frags packet else none) = none := by
    split
    · exact hnone ‹_›
    · rfl
  simp only [collect, hindex]

theorem addToSlot_slot {slot : Option PartialPacket} {packet : LpPacket} {netPkt : Block} {first : ℕ}
    (h : Slot options frags waiting slot) (hwaiting : Waiting frags waiting) (hencodable : Encodable netPkt)
    (hpieces : ∀ (j : ℕ) (frag : LpPacket), frags[j]? = some frag →
      ∃ octets, Sequenced frag first j frags.length octets)
    (hjoin : frags.flatMap fragmentOctets = wire netPkt) (hindex : indexOf frags packet = some j) (now : ℕ) :
    (∃ firstPkt, sameFragment firstPkt (frags.headD ⟨[]⟩) ∧ (addToSlot options now j frags.length packet slot).1 =
      .ok (if complete frags waiting j then some (netPkt, firstPkt) else none)) ∧
    Waiting frags (nextWaiting frags waiting j now) ∧
    Slot options frags (nextWaiting frags waiting j now) (addToSlot options now j frags.length packet slot).2 := by
  obtain ⟨hj, frag, hfrag, hsame⟩ := indexOf_spec hindex
  have hstored := h.partialPacket_stored (by omega)
  have hself : ∃ firstPkt, sameFragment firstPkt (frags.headD ⟨[]⟩) := ⟨frags.headD ⟨[]⟩, by simp [sameFragment]⟩
  simp only [addToSlot]
  generalize partialPacket frags.length slot = pp at hstored ⊢
  rw [if_neg (by rw [hstored.fragCount]; simp), hstored.has_sequence hj hpieces]
  by_cases hmem : j ∈ waiting.map Prod.fst
  · have hcomplete := hwaiting.complete_of_mem hmem
    obtain ⟨firstPkt, hfirst⟩ := hself
    rw [if_pos (decide_eq_true hmem), nextWaiting, hcomplete, if_neg (by simp), if_pos hmem]
    refine ⟨⟨firstPkt, hfirst, by simp⟩, hwaiting, .stored ?_ hstored⟩
    rintro rfl
    cases hmem
  · rw [if_neg (by simpa using hmem), hstored.nReceivedFragments, hstored.fragCount]
    have hset := hstored.set hfrag hsame now
    by_cases hlength : waiting.length + 1 = frags.length
    · have hcomplete := (hwaiting.complete_of_notMem hj hmem).mpr hlength
      have hall : ∀ (j' : ℕ) (frag' : LpPacket), frags[j']? = some frag' →
          ∃ packet', (pp.fragments.set j packet)[j']? = some packet' ∧ sameFragment packet' frag' := by
        intro j' frag' hfrag'
        refine hset.present j' ?_ frag' hfrag'
        exact complete_iff.mp hcomplete (List.mem_range.mpr (List.getElem?_eq_some_iff.mp hfrag').1)
      have hreassembled : doReassembly ⟨pp.fragments.set j packet, frags.length, waiting.length + 1, pp.dropTimer⟩ =
          .ok netPkt := doReassembly_ok hencodable hset.length hall hpieces hjoin
      rw [if_pos hlength, hreassembled, nextWaiting, if_pos hcomplete]
      refine ⟨⟨(pp.fragments.set j packet).headD ⟨[]⟩, ?_, by rw [if_pos hcomplete]⟩, Waiting.nil (by omega), .empty⟩
      obtain ⟨packet', hpacket', hsame'⟩ := hall 0 (frags.headD ⟨[]⟩)
        (by rw [List.headD_eq_head?_getD, List.head?_eq_getElem?, List.getElem?_eq_getElem (by omega), Option.getD_some])
      rwa [List.headD_eq_head?_getD, List.head?_eq_getElem?, hpacket', Option.getD_some]
    · have hcomplete : ¬ complete frags waiting j := fun h => hlength ((hwaiting.complete_of_notMem hj hmem).mp h)
      obtain ⟨firstPkt, hfirst⟩ := hself
      rw [if_neg hlength, nextWaiting, if_neg hcomplete, if_neg hmem]
      refine ⟨⟨firstPkt, hfirst, by rw [if_neg hcomplete]⟩, hwaiting.cons hj hmem hlength now, .stored (List.cons_ne_nil _ _) ?_⟩
      rw [hstored.nReceivedFragments, hstored.fragCount] at hset
      exact hset

end Slots

section Receiving

variable {options : Options} {partials : PartialPackets} {packet frag : LpPacket} {first j count : ℕ}

theorem decodeUint64_sequenceField {sequence : ℕ} (h : sequence < sequenceLimit) :
    decodeUint64 (sequenceField sequence) = .ok sequence := by
  rw [decodeUint64, sequenceField, if_neg (by rw [toBigEndian_length]; simp)]
  rw [bigEndian_toBigEndian (by simpa [sequenceLimit] using h)]

theorem messageIdentifier_eq (first : ℕ) (h : j < sequenceLimit) :
    messageIdentifier ((first + j) % sequenceLimit) j = first % sequenceLimit := by
  simp only [messageIdentifier, sequenceLimit] at h ⊢
  omega

theorem get_of_find {α : Type} {type : ℕ} {element : Block} (h : find packet.elements type = some element)
    (decode : Block → Except Exception α) : packet.get type decode = decode element := by
  rw [LpPacket.get, h]

theorem readFragIndex_eq (h : find packet.elements 82 = some (fragIndexField j)) (hj : j < sequenceLimit) :
    readFragIndex packet = .ok j := by
  rw [readFragIndex, if_pos (has_of_find h), get_of_find h]
  exact readNonNegativeInteger_encode hj 82

theorem readFragCount_eq (h : find packet.elements 83 = some (fragCountField count)) (hcount : count < sequenceLimit) :
    readFragCount packet = .ok count := by
  rw [readFragCount, if_pos (has_of_find h), get_of_find h]
  exact readNonNegativeInteger_encode hcount 83

theorem readFragment_eq (nMaxFragments : ℕ) (packet : LpPacket) : readFragment nMaxFragments packet = (do
    let fragIndex ← readFragIndex packet
    let fragCount ← readFragCount packet
    if fragIndex ≥ fragCount ∨ fragCount > nMaxFragments then .ok .dropped
    else if fragIndex = 0 ∧ fragCount = 1 then do
      let fragment ← packet.get 80 decodeFragment
      let netPkt ← Block.ofBuffer fragment
      .ok (.whole netPkt)
    else .ok .incomplete) := by
  unfold readFragment readFragIndex readFragCount
  cases packet.has 82 <;> cases packet.has 83 <;> rfl

theorem addToPartialPacket_sequenced {octets : List UInt8} (hpiece : Sequenced frag first j count octets)
    (hsame : sameFragment packet frag) (hj : j < count) (hlimit : count < sequenceLimit) (now remoteEndpoint : ℕ) :
    addToPartialPacket options now remoteEndpoint packet partials =
      ((addToSlot options now j count packet (partials (remoteEndpoint, first % sequenceLimit))).1,
        Function.update partials (remoteEndpoint, first % sequenceLimit)
          (addToSlot options now j count packet (partials (remoteEndpoint, first % sequenceLimit))).2) := by
  have hindex := readFragIndex_eq ((sameFragment_find hsame (by decide)).trans hpiece.fragIndex) (by omega)
  have hcount := readFragCount_eq ((sameFragment_find hsame (by decide)).trans hpiece.fragCount) hlimit
  have hsequence := (sameFragment_find hsame (by decide)).trans hpiece.sequence
  have hdecode := decodeUint64_sequenceField (Nat.mod_lt (first + j) (by decide : 0 < sequenceLimit))
  have hposition : (do
      let fragIndex ← readFragIndex packet
      let fragCount ← readFragCount packet
      if ¬ packet.has 81 then .ok none
      else do
        let sequence ← packet.get 81 decodeUint64
        .ok (some (fragIndex, fragCount, messageIdentifier sequence fragIndex))) =
      (.ok (some (j, count, first % sequenceLimit)) : Except Exception (Option (ℕ × ℕ × ℕ))) := by
    rw [hindex, hcount, get_of_find hsequence, hdecode]
    simp only [bind, Except.bind, has_of_find hsequence]
    rw [messageIdentifier_eq first (by omega)]
    rfl
  simp only [addToPartialPacket, hposition]

theorem receiveFragment_sequenced {octets : List UInt8} (hpiece : Sequenced frag first j count octets)
    (hsame : sameFragment packet frag) (hj : j < count) (hseveral : 1 < count) (hmax : count ≤ options.nMaxFragments)
    (hlimit : count < sequenceLimit) (now remoteEndpoint : ℕ) :
    receiveFragment options now remoteEndpoint packet partials =
      ((addToSlot options now j count packet (partials (remoteEndpoint, first % sequenceLimit))).1,
        Function.update partials (remoteEndpoint, first % sequenceLimit)
          (addToSlot options now j count packet (partials (remoteEndpoint, first % sequenceLimit))).2) := by
  have hindex := readFragIndex_eq ((sameFragment_find hsame (by decide)).trans hpiece.fragIndex) (by omega)
  have hcount := readFragCount_eq ((sameFragment_find hsame (by decide)).trans hpiece.fragCount) hlimit
  have hread : readFragment options.nMaxFragments packet = .ok .incomplete := by
    rw [readFragment_eq, hindex, hcount]
    simp only [bind, Except.bind]
    rw [if_neg (by omega), if_neg (by omega)]
  rw [receiveFragment, hread]
  exact addToPartialPacket_sequenced hpiece hsame hj hlimit now remoteEndpoint

theorem receiveFragment_whole {netPkt : Block} (hencodable : Encodable netPkt)
    (hfragment : find frag.elements 80 = some (fragmentField (wire netPkt)))
    (hindex : find frag.elements 82 = none ∨ find frag.elements 82 = some (fragIndexField 0))
    (hcount : find frag.elements 83 = none ∨ find frag.elements 83 = some (fragCountField 1))
    (hsame : sameFragment packet frag) (now remoteEndpoint : ℕ) :
    receiveFragment options now remoteEndpoint packet partials =
      (.ok (if 1 ≤ options.nMaxFragments then some (netPkt, packet) else none), partials) := by
  rw [← sameFragment_find hsame (by decide)] at hfragment hindex hcount
  have hindex' : readFragIndex packet = .ok 0 := by
    rcases hindex with hnone | hzero
    · rw [readFragIndex, has_iff, hnone]
      rfl
    · exact readFragIndex_eq hzero (by decide)
  have hcount' : readFragCount packet = .ok 1 := by
    rcases hcount with hnone | hone
    · rw [readFragCount, has_iff, hnone]
      rfl
    · exact readFragCount_eq hone (by decide)
  have hget : packet.get 80 decodeFragment = .ok (wire netPkt) := by
    rw [get_of_find hfragment]
    exact if_neg (wire_ne_nil _)
  rw [receiveFragment, readFragment_eq, hindex', hcount', hget]
  simp only [bind, Except.bind]
  by_cases hmax : 1 ≤ options.nMaxFragments
  · rw [if_neg (by omega), if_pos (by decide), ofBuffer_wire hencodable, if_pos hmax]
  · rw [if_pos (by omega), if_neg hmax]

theorem receiveFragment_other {octets : List UInt8} (hpiece : Sequenced frag first j count octets)
    (hsame : sameFragment packet frag) (hj : j < count) (hlimit : count < sequenceLimit) (now remoteEndpoint : ℕ)
    {key : Key} (hkey : key ≠ (remoteEndpoint, first % sequenceLimit)) :
    (receiveFragment options now remoteEndpoint packet partials).2 key = partials key := by
  unfold receiveFragment
  split
  · rfl
  · rfl
  · rfl
  · rw [addToPartialPacket_sequenced hpiece hsame hj hlimit]
    exact Function.update_of_ne hkey _ _

theorem receiveFragment_frame (now : ℕ) {remoteEndpoint : ℕ} (packet : LpPacket) {key : Key} (hne : key.1 ≠ remoteEndpoint) :
    (receiveFragment options now remoteEndpoint packet partials).2 key = partials key := by
  unfold receiveFragment addToPartialPacket
  split
  · rfl
  · rfl
  · rfl
  · dsimp only
    split
    · rfl
    · rfl
    · refine Function.update_of_ne ?_ _ _
      rintro rfl
      exact hne rfl

theorem runTimer_snd (now : ℕ) (key : Key) : (runTimer now key partials).2 =
    if (runTimer now key partials).1.isSome then Function.update partials key none else partials := by
  unfold runTimer timeoutPartialPacket
  split
  · cases hkey : partials key <;> rfl
  · rfl

theorem runTimer_isSome (now : ℕ) (key : Key) :
    (runTimer now key partials).1.isSome ↔ (partials key).any (fun pp => pp.dropTimer = some now) := by
  unfold runTimer timeoutPartialPacket
  cases hkey : partials key with
  | none => simp
  | some pp => by_cases hdue : pp.dropTimer = some now <;> simp [hdue]

end Receiving

end LeoNdn.LpReassembler
