import LeoNdn.NewNextHop
import LeoNdn.PendingPull

/-!
Which pending Interests one pull sends to a face, and how often.
-/

namespace LeoNdn.InterestPulls

open LeoNdn.NdnPacket LeoNdn.NameTree LeoNdn.NameTreeIterator LeoNdn.ForwardingTables
open LeoNdn.Forwarder (Face FaceRecord)
open LeoNdn.NewNextHop (InPit)
open LeoNdn.PendingPull (decrement)

section Rounds

variable {α : Type} (isPulled isPending : α → Bool)

/-- The loop over the PIT entries of one node; it ends where the counter is 0. -/
def collectPulls : List α → ℕ → List α → ℕ × List α
  | [], cnt, pendingPulls => (cnt, pendingPulls)
  | pitEntry :: pitEntries, cnt, pendingPulls =>
    let cnt := if isPulled pitEntry then decrement cnt else cnt
    let pendingPulls := if isPulled pitEntry then pendingPulls ++ [pitEntry] else pendingPulls
    if cnt = 0 then (cnt, pendingPulls) else collectPulls pitEntries cnt pendingPulls

/-- The loop over the nodes; what was collected before stays among the pulls. -/
def pullRounds : List (List α) → ℕ → List α → List α
  | [], _, _ => []
  | pitEntries :: nodes, cnt, pendingPulls =>
    let (cnt, pendingPulls) := collectPulls isPulled pitEntries cnt pendingPulls
    pendingPulls.filter isPending ++ pullRounds nodes cnt pendingPulls

/-- How many entries of a node the counter lets in; it wraps if it has come to 0 and the first entry is to be pulled. -/
def allowance (cnt : ℕ) (pitEntries : List α) : ℕ :=
  if cnt = 0 then (if pitEntries.head?.any isPulled then 4294967296 else 0) else cnt

def admitted : ℕ → List (List α) → List (List α)
  | _, [] => []
  | cnt, pitEntries :: nodes =>
    (pitEntries.filter isPulled).take (allowance isPulled cnt pitEntries) ::
      admitted (allowance isPulled cnt pitEntries - pitEntries.countP isPulled) nodes

variable {isPulled isPending}

theorem collectPulls_of_pos {cnt : ℕ} (hcnt : 0 < cnt) (pitEntries pendingPulls : List α) :
    collectPulls isPulled pitEntries cnt pendingPulls =
      (cnt - pitEntries.countP isPulled, pendingPulls ++ (pitEntries.filter isPulled).take cnt) := by
  induction pitEntries generalizing cnt pendingPulls with
  | nil => simp [collectPulls]
  | cons pitEntry pitEntries ih =>
    rw [collectPulls]
    by_cases hpulled : isPulled pitEntry = true
    · have hdecrement : decrement cnt = cnt - 1 := if_neg (Nat.ne_of_gt hcnt)
      simp only [hpulled, if_true, hdecrement, List.countP_cons_of_pos, List.filter_cons_of_pos]
      obtain ⟨rest, rfl⟩ := Nat.exists_eq_add_of_le' hcnt
      rw [Nat.add_sub_cancel, List.take_succ_cons]
      by_cases hrest : rest = 0
      · rw [if_pos hrest, hrest, List.take_zero]
        congr 1
        omega
      · rw [if_neg hrest, ih (Nat.pos_of_ne_zero hrest), List.append_assoc, List.singleton_append]
        congr 1
        omega
    · simp only [hpulled, Bool.false_eq_true, if_false, List.countP_cons_of_neg, List.filter_cons_of_neg, not_false_eq_true]
      rw [if_neg (Nat.ne_of_gt hcnt), ih hcnt]

theorem collectPulls_eq (cnt : ℕ) (pitEntries pendingPulls : List α) :
    collectPulls isPulled pitEntries cnt pendingPulls =
      (allowance isPulled cnt pitEntries - pitEntries.countP isPulled,
        pendingPulls ++ (pitEntries.filter isPulled).take (allowance isPulled cnt pitEntries)) := by
  rcases Nat.eq_zero_or_pos cnt with rfl | hcnt
  · cases pitEntries with
    | nil => simp [collectPulls, allowance]
    | cons pitEntry pitEntries =>
      rw [collectPulls, allowance, if_pos rfl, List.head?_cons, Option.any_some]
      by_cases hpulled : isPulled pitEntry = true
      · have hwrap : decrement 0 = 4294967295 := rfl
        simp only [hpulled, if_true, hwrap, List.countP_cons_of_pos, List.filter_cons_of_pos]
        rw [if_neg (by decide), collectPulls_of_pos (by decide), List.take_succ_cons, List.append_assoc,
          List.singleton_append]
        congr 1
        omega
      · simp [hpulled]
  · have hallowance : allowance isPulled cnt pitEntries = cnt := if_neg (Nat.ne_of_gt hcnt)
    rw [hallowance, collectPulls_of_pos hcnt]

theorem pullRounds_cons (pitEntries : List α) (nodes : List (List α)) (cnt : ℕ) (pendingPulls : List α) :
    pullRounds isPulled isPending (pitEntries :: nodes) cnt pendingPulls =
      (pendingPulls ++ (pitEntries.filter isPulled).take (allowance isPulled cnt pitEntries)).filter isPending ++
        pullRounds isPulled isPending nodes (allowance isPulled cnt pitEntries - pitEntries.countP isPulled)
          (pendingPulls ++ (pitEntries.filter isPulled).take (allowance isPulled cnt pitEntries)) := by
  rw [pullRounds, collectPulls_eq]

/-- Only the last node lets in entries that are sent: they are sent once. -/
theorem pullRounds_last {nodes : List (List α)} {cnt : ℕ} {pendingPulls : List α}
    (hlast : ∀ pulls ∈ (admitted isPulled cnt nodes).dropLast, pulls.filter isPending = [])
    (hpending : pendingPulls.filter isPending = []) :
    pullRounds isPulled isPending nodes cnt pendingPulls =
      ((admitted isPulled cnt nodes).getLastD []).filter isPending := by
  induction nodes generalizing cnt pendingPulls with
  | nil => rfl
  | cons pitEntries nodes ih =>
    rw [pullRounds_cons, List.filter_append, hpending, List.nil_append]
    cases nodes with
    | nil => simp [pullRounds, admitted]
    | cons other nodes =>
      rw [admitted, List.dropLast_cons_of_ne_nil (by simp [admitted])] at hlast
      have hnone := hlast _ List.mem_cons_self
      rw [hnone, List.nil_append, ih (fun pulls hpulls => hlast pulls (List.mem_cons_of_mem _ hpulls))
        (by rw [List.filter_append, hpending, hnone, List.append_nil])]
      simp only [admitted, List.getLastD_cons]

theorem dropLast_of_nodup {nodes : List (List α)} {cnt : ℕ} {pendingPulls : List α}
    (hnodup : (pullRounds isPulled isPending nodes cnt pendingPulls).Nodup)
    (hpending : pendingPulls.filter isPending = []) :
    ∀ pulls ∈ (admitted isPulled cnt nodes).dropLast, pulls.filter isPending = [] := by
  induction nodes generalizing cnt pendingPulls with
  | nil => exact fun pulls hpulls => absurd hpulls List.not_mem_nil
  | cons pitEntries nodes ih =>
    cases nodes with
    | nil => exact fun pulls hpulls => absurd hpulls (by simp [admitted])
    | cons other nodes =>
      have hne : admitted isPulled (allowance isPulled cnt pitEntries - pitEntries.countP isPulled) (other :: nodes) ≠ [] := by
        simp [admitted]
      rw [pullRounds_cons] at hnodup
      obtain ⟨-, hrest, hdisjoint⟩ := List.nodup_append.mp hnodup
      have hnone : (pendingPulls ++ (pitEntries.filter isPulled).take (allowance isPulled cnt pitEntries)).filter isPending = [] := by
        rw [List.eq_nil_iff_forall_not_mem]
        intro pitEntry hmem
        refine hdisjoint pitEntry hmem pitEntry ?_ rfl
        rw [pullRounds_cons, List.filter_append]
        exact List.mem_append_left _ (List.mem_append_left _ hmem)
      rw [admitted, List.dropLast_cons_of_ne_nil hne]
      intro pulls hpulls
      rcases List.mem_cons.mp hpulls with rfl | htail
      · rw [List.filter_append] at hnone
        exact (List.append_eq_nil_iff.mp hnone).2
      · exact ih hrest hnone pulls htail

theorem mem_admitted {nodes : List (List α)} {cnt : ℕ} {pulls : List α} (h : pulls ∈ admitted isPulled cnt nodes) :
    ∃ pitEntries ∈ nodes, pulls.Sublist (pitEntries.filter isPulled) := by
  induction nodes generalizing cnt with
  | nil => exact absurd h List.not_mem_nil
  | cons pitEntries nodes ih =>
    rcases List.mem_cons.mp h with rfl | htail
    · exact ⟨pitEntries, List.mem_cons_self, List.take_sublist _ _⟩
    · obtain ⟨node, hnode, hsub⟩ := ih htail
      exact ⟨node, List.mem_cons_of_mem _ hnode, hsub⟩

theorem admitted_all {nodes : List (List α)} {cnt : ℕ} (h : nodes.flatten.countP isPulled ≤ cnt) :
    admitted isPulled cnt nodes = nodes.map (List.filter isPulled) := by
  induction nodes generalizing cnt with
  | nil => rfl
  | cons pitEntries nodes ih =>
    rw [List.flatten_cons, List.countP_append] at h
    have hfilter : (pitEntries.filter isPulled).length = pitEntries.countP isPulled := List.countP_eq_length_filter.symm
    have hallowance : pitEntries.countP isPulled ≤ allowance isPulled cnt pitEntries ∧
        nodes.flatten.countP isPulled ≤ allowance isPulled cnt pitEntries - pitEntries.countP isPulled := by
      unfold allowance
      by_cases hcnt : cnt = 0
      · have hnone : pitEntries.countP isPulled = 0 := by omega
        have hrest : nodes.flatten.countP isPulled = 0 := by omega
        omega
      · rw [if_neg hcnt]
        omega
    rw [admitted, ih hallowance.2, List.take_of_length_le (by omega), List.map_cons]

end Rounds

section Pull

variable {σ : Type}

structure Records where
  m_inRecords : List FaceRecord
  m_outRecords : List FaceRecord

structure Send (σ : Type) where
  time : ℤ
  outFace : Face
  interest : PitEntry σ
  deriving DecidableEq

def hasPitEntries (nte : NameTree.Entry Component (TableEntries σ)) : Bool × Bool :=
  (nte.tables.m_pitEntries ≠ [], true)

def isPulled (outFace : Face) (records : Records) : Bool :=
  ! records.m_inRecords.isEmpty && records.m_inRecords.all (fun record => record.m_face ≠ outFace) &&
    records.m_outRecords.all (fun record => record.m_face ≠ outFace)

def isPending (now : ℤ) (records : Records) : Bool :=
  (records.m_inRecords.map FaceRecord.m_expiry).max?.any (fun lastExpiry => 0 < lastExpiry - now)

variable (nt : NameTree σ) (records : PitEntry σ → Records) (now : ℤ) (namePrefix : Name) (outFace : Face)

def doPull (m_doPull : Bool) (rounds : ℕ) : Option (List (Send σ)) :=
  if m_doPull then do
    let nodes ← partialEnumerate rounds nt namePrefix hasPitEntries
    let pendingPulls := pullRounds (fun pitEntry => isPulled outFace (records pitEntry))
      (fun pitEntry => isPending now (records pitEntry)) (nodes.map fun nte => (tablesOf nt nte).m_pitEntries) 1000 []
    some (pendingPulls.map fun pitEntry => ⟨now + 1000000, outFace, pitEntry⟩)
  else some []

def pitNodes : List (List (PitEntry σ)) :=
  (subtree nt hasPitEntries (getMaxDepth + 1) namePrefix).map (fun nte => (tablesOf nt nte).m_pitEntries)

def pitEntriesOf : List (PitEntry σ) := (pitNodes nt []).flatten

/-- An entry under the prefix that is not known to the face. -/
def isCandidate (pitEntry : PitEntry σ) : Bool := namePrefix <+: pitEntry.m_name && isPulled outFace (records pitEntry)

def isEligible (pitEntry : PitEntry σ) : Bool :=
  isCandidate records namePrefix outFace pitEntry && isPending now (records pitEntry)

/-- One Interest for each eligible entry, up to 1000, and none for any other. -/
structure PullsExactly (sends : List (Send σ)) : Prop where
  once : (sends.map Send.interest).Nodup
  eligible : ∀ send ∈ sends, InPit nt send.interest ∧ isEligible records now namePrefix outFace send.interest = true ∧
    send.outFace = outFace
  count : sends.length = min 1000 ((pitEntriesOf nt).countP (isEligible records now namePrefix outFace))

def pullsOf : List (List (PitEntry σ)) :=
  admitted (fun pitEntry => isPulled outFace (records pitEntry)) 1000 (pitNodes nt namePrefix)

/-- The nodes before the last one let no entry in that has not expired, and the last one lets in as many as are eligible. -/
def PullsAtLastNode : Prop :=
  (∀ pulls ∈ (pullsOf nt records namePrefix outFace).dropLast,
    pulls.filter (fun pitEntry => isPending now (records pitEntry)) = []) ∧
  ((pullsOf nt records namePrefix outFace).getLastD []).countP (fun pitEntry => isPending now (records pitEntry)) =
    min 1000 ((pitEntriesOf nt).countP (isEligible records now namePrefix outFace))

end Pull

section Exact

variable {σ : Type} {nt : NameTree σ} {records : PitEntry σ → Records} {now : ℤ} {namePrefix : Name} {outFace : Face}

theorem select_hasPitEntries (name : Name) :
    select nt hasPitEntries name =
      if (nt name).isSome then (decide ((tablesOf nt name).m_pitEntries ≠ []), true) else (false, false) := by
  unfold select tablesOf tablesAt
  cases nt name <;> rfl

theorem mem_pitNodes (h : Attached nt) (pitEntries : List (PitEntry σ)) :
    pitEntries ∈ pitNodes nt namePrefix ↔
      pitEntries ≠ [] ∧ ∃ name, namePrefix <+: name ∧ (tablesOf nt name).m_pitEntries = pitEntries := by
  have hsome (name : Name) (hne : (tablesOf nt name).m_pitEntries ≠ []) : (nt name).isSome :=
    isSome_of_tables fun hno => hne (by rw [hno]; rfl)
  simp only [pitNodes, List.mem_map, mem_subtree h.wellFormed (by omega : getMaxDepth < namePrefix.length + (getMaxDepth + 1))]
  constructor
  · rintro ⟨name, ⟨hunder, haccepted, hnode, -⟩, rfl⟩
    rw [select_hasPitEntries, if_pos hnode] at haccepted
    exact ⟨of_decide_eq_true haccepted, name, hunder, rfl⟩
  · rintro ⟨hne, name, hunder, rfl⟩
    refine ⟨name, ⟨hunder, ?_, hsome name hne, fun i _ _ => ?_⟩, rfl⟩
    · rw [select_hasPitEntries, if_pos (hsome name hne)]
      exact decide_eq_true hne
    · rw [select_hasPitEntries, if_pos (isSome_take h.wellFormed (hsome name hne) i)]

theorem mem_flatten_pitNodes (h : Attached nt) (pitEntry : PitEntry σ) :
    pitEntry ∈ (pitNodes nt namePrefix).flatten ↔ InPit nt pitEntry ∧ namePrefix <+: nteName pitEntry.m_name := by
  simp only [List.mem_flatten, mem_pitNodes h]
  constructor
  · rintro ⟨pitEntries, ⟨-, name, hunder, rfl⟩, hmem⟩
    have hname := (h.tables name).pit pitEntry hmem
    rw [InPit, hname]
    exact ⟨hmem, hunder⟩
  · rintro ⟨hin, hunder⟩
    exact ⟨_, ⟨List.ne_nil_of_mem hin, nteName pitEntry.m_name, hunder, rfl⟩, hin⟩

theorem nodup_flatten_pitNodes (h : Attached nt) : (pitNodes nt namePrefix).flatten.Nodup := by
  rw [pitNodes, ← List.flatMap_def]
  refine List.nodup_flatMap.mpr ⟨fun nte _ => (h.tables nte).nodup.of_map _, ?_⟩
  refine (nodup_subtree h.wellFormed _ _).imp fun {nte nte'} hne => ?_
  intro pitEntry hmem hmem'
  exact hne (((h.tables nte).pit _ hmem).symm.trans ((h.tables nte').pit _ hmem'))

theorem mem_pitEntriesOf (h : Attached nt) (pitEntry : PitEntry σ) : pitEntry ∈ pitEntriesOf nt ↔ InPit nt pitEntry := by
  rw [pitEntriesOf, mem_flatten_pitNodes h]
  exact and_iff_left (List.nil_prefix)

theorem doPull_eq (h : Attached nt) : ∃ rounds, ∀ r, rounds ≤ r → doPull nt records now namePrefix outFace true r =
    some ((pullRounds (fun pitEntry => isPulled outFace (records pitEntry))
      (fun pitEntry => isPending now (records pitEntry)) (pitNodes nt namePrefix) 1000 []).map
        fun pitEntry => ⟨now + 1000000, outFace, pitEntry⟩) := by
  obtain ⟨rounds, hrounds⟩ := partialEnumerate_eq h.wellFormed (hasPitEntries (σ := σ)) namePrefix
  refine ⟨rounds, fun r hr => ?_⟩
  rw [doPull, if_pos rfl, hrounds r hr]
  rfl

theorem eligible_of_admitted (h : Attached nt) {pulls : List (PitEntry σ)}
    (hpulls : pulls ∈ pullsOf nt records namePrefix outFace) {pitEntry : PitEntry σ} (hmem : pitEntry ∈ pulls)
    (hpending : isPending now (records pitEntry) = true) :
    InPit nt pitEntry ∧ isEligible records now namePrefix outFace pitEntry = true := by
  obtain ⟨pitEntries, hnode, hsub⟩ := mem_admitted hpulls
  obtain ⟨hentry, hpulled⟩ := List.mem_filter.mp (hsub.subset hmem)
  obtain ⟨hin, hunder⟩ := (mem_flatten_pitNodes h pitEntry).mp (List.mem_flatten.mpr ⟨pitEntries, hnode, hentry⟩)
  refine ⟨hin, ?_⟩
  have hname : namePrefix <+: pitEntry.m_name := hunder.trans (List.take_prefix _ _)
  simp [isEligible, isCandidate, hname, hpulled, hpending]

theorem nodup_admitted (h : Attached nt) {pulls : List (PitEntry σ)} (hpulls : pulls ∈ pullsOf nt records namePrefix outFace) :
    pulls.Nodup := by
  obtain ⟨pitEntries, hnode, hsub⟩ := mem_admitted hpulls
  exact (((List.nodup_flatten.mp (nodup_flatten_pitNodes h)).1 pitEntries hnode).filter _).sublist hsub

theorem getLastD_mem {β : Type} {lists : List (List β)} {value : β} (h : value ∈ lists.getLastD []) :
    lists.getLastD [] ∈ lists := by
  cases hlast : lists.getLast? with
  | none =>
    rw [List.getLastD_eq_getLast?, hlast] at h
    exact absurd h List.not_mem_nil
  | some last =>
    rw [List.getLastD_eq_getLast?, hlast]
    exact List.mem_of_getLast? hlast

def lastPulls (nt : NameTree σ) (records : PitEntry σ → Records) (now : ℤ) (namePrefix : Name) (outFace : Face) :
    List (PitEntry σ) :=
  ((pullsOf nt records namePrefix outFace).getLastD []).filter (fun pitEntry => isPending now (records pitEntry))

theorem nodup_lastPulls (h : Attached nt) : (lastPulls nt records now namePrefix outFace).Nodup := by
  cases hempty : (pullsOf nt records namePrefix outFace).getLastD [] with
  | nil =>
    rw [lastPulls, hempty]
    exact List.nodup_nil
  | cons pitEntry pulls =>
    have hmem : pitEntry ∈ (pullsOf nt records namePrefix outFace).getLastD [] := by
      rw [hempty]
      exact List.mem_cons_self
    exact (nodup_admitted h (getLastD_mem hmem)).filter _

theorem eligible_of_lastPulls (h : Attached nt) {pitEntry : PitEntry σ}
    (hmem : pitEntry ∈ lastPulls nt records now namePrefix outFace) :
    InPit nt pitEntry ∧ isEligible records now namePrefix outFace pitEntry = true := by
  obtain ⟨hpull, hpending⟩ := List.mem_filter.mp hmem
  exact eligible_of_admitted h (getLastD_mem hpull) hpull hpending

theorem pullsExactly_iff (h : Attached nt) :
    PullsExactly nt records now namePrefix outFace
      ((pullRounds (fun pitEntry => isPulled outFace (records pitEntry))
        (fun pitEntry => isPending now (records pitEntry)) (pitNodes nt namePrefix) 1000 []).map
          fun pitEntry => ⟨now + 1000000, outFace, pitEntry⟩) ↔
      PullsAtLastNode nt records now namePrefix outFace := by
  have hinterests (pulls : List (PitEntry σ)) :
      (pulls.map fun pitEntry => (⟨now + 1000000, outFace, pitEntry⟩ : Send σ)).map Send.interest = pulls := by
    rw [List.map_map]
    exact List.map_id pulls
  constructor
  · rintro ⟨honce, -, hcount⟩
    rw [hinterests] at honce
    have hlast := dropLast_of_nodup honce rfl
    refine ⟨hlast, ?_⟩
    rw [pullRounds_last hlast rfl, List.length_map, ← List.countP_eq_length_filter] at hcount
    exact hcount
  · rintro ⟨hlast, hcount⟩
    rw [pullRounds_last hlast rfl]
    refine ⟨?_, ?_, ?_⟩
    · rw [hinterests]
      exact nodup_lastPulls h
    · intro send hsend
      obtain ⟨pitEntry, hmem, rfl⟩ := List.mem_map.mp hsend
      obtain ⟨hin, heligible⟩ := eligible_of_lastPulls h hmem
      exact ⟨hin, heligible, rfl⟩
    · rw [List.length_map, ← List.countP_eq_length_filter]
      exact hcount

theorem nodup_pitEntriesOf (h : Attached nt) : (pitEntriesOf nt).Nodup := nodup_flatten_pitNodes h

theorem countP_pulled_le (h : Attached nt) :
    (pitNodes nt namePrefix).flatten.countP (fun pitEntry => isPulled outFace (records pitEntry)) ≤
      (pitEntriesOf nt).countP (isCandidate records namePrefix outFace) := by
  rw [List.countP_eq_length_filter, List.countP_eq_length_filter]
  refine (List.subperm_of_subset ((nodup_flatten_pitNodes h).filter _) fun pitEntry hmem => ?_).length_le
  obtain ⟨hnode, hpulled⟩ := List.mem_filter.mp hmem
  obtain ⟨hin, hunder⟩ := (mem_flatten_pitNodes h pitEntry).mp hnode
  have hname : namePrefix <+: pitEntry.m_name := hunder.trans (List.take_prefix _ _)
  exact List.mem_filter.mpr ⟨(mem_pitEntriesOf h pitEntry).mpr hin, by simp [isCandidate, hname, hpulled]⟩

theorem countP_eligible_le : (pitEntriesOf nt).countP (isEligible records now namePrefix outFace) ≤
    (pitEntriesOf nt).countP (isCandidate records namePrefix outFace) :=
  List.countP_mono_left fun _ _ heligible => (Bool.and_eq_true_iff.mp heligible).1

/-- The last node lets all eligible entries in as many are eligible at all. -/
theorem lastPulls_perm_iff (h : Attached nt) :
    (lastPulls nt records now namePrefix outFace).length =
        (pitEntriesOf nt).countP (isEligible records now namePrefix outFace) ↔
      ∀ pitEntry, InPit nt pitEntry → isEligible records now namePrefix outFace pitEntry = true →
        pitEntry ∈ lastPulls nt records now namePrefix outFace := by
  rw [List.countP_eq_length_filter]
  have hsub : lastPulls nt records now namePrefix outFace ⊆
      (pitEntriesOf nt).filter (isEligible records now namePrefix outFace) := by
    intro pitEntry hmem
    obtain ⟨hin, heligible⟩ := eligible_of_lastPulls h hmem
    exact List.mem_filter.mpr ⟨(mem_pitEntriesOf h pitEntry).mpr hin, heligible⟩
  have hsubperm := List.subperm_of_subset (nodup_lastPulls h) hsub
  constructor
  · intro hlength pitEntry hin heligible
    rw [(hsubperm.perm_of_length_le hlength.ge).mem_iff]
    exact List.mem_filter.mpr ⟨(mem_pitEntriesOf h pitEntry).mpr hin, heligible⟩
  · intro hall
    have hsub' : (pitEntriesOf nt).filter (isEligible records now namePrefix outFace) ⊆
        lastPulls nt records now namePrefix outFace := by
      intro pitEntry hmem
      obtain ⟨hin, heligible⟩ := List.mem_filter.mp hmem
      exact hall pitEntry ((mem_pitEntriesOf h pitEntry).mp hin) heligible
    have hsubperm' := List.subperm_of_subset ((nodup_pitEntriesOf h).filter _) hsub'
    exact le_antisymm hsubperm.length_le hsubperm'.length_le

theorem mem_lastPulls_iff (h : Attached nt)
    (hcount : (pitEntriesOf nt).countP (isCandidate records namePrefix outFace) ≤ 1000) {pitEntry : PitEntry σ}
    (heligible : isEligible records now namePrefix outFace pitEntry = true) :
    pitEntry ∈ lastPulls nt records now namePrefix outFace ↔ pitEntry ∈ (pitNodes nt namePrefix).getLastD [] := by
  obtain ⟨hcandidate, hpending⟩ := Bool.and_eq_true_iff.mp heligible
  have hpulled := (Bool.and_eq_true_iff.mp hcandidate).2
  have hlast : (pullsOf nt records namePrefix outFace).getLastD [] =
      ((pitNodes nt namePrefix).getLastD []).filter (fun pitEntry => isPulled outFace (records pitEntry)) := by
    rw [pullsOf, admitted_all ((countP_pulled_le h).trans hcount), List.getLastD_eq_getLast?, List.getLastD_eq_getLast?,
      List.getLast?_map]
    cases (pitNodes nt namePrefix).getLast? <;> rfl
  rw [lastPulls, hlast, List.mem_filter, List.mem_filter]
  exact ⟨fun hmem => hmem.1.1, fun hmem => ⟨⟨hmem, hpulled⟩, hpending⟩⟩

theorem pullsAtLastNode_iff (h : Attached nt)
    (hcount : (pitEntriesOf nt).countP (isCandidate records namePrefix outFace) ≤ 1000) :
    PullsAtLastNode nt records now namePrefix outFace ↔
      ∀ pitEntry, InPit nt pitEntry → isEligible records now namePrefix outFace pitEntry = true →
        pitEntry ∈ (pitNodes nt namePrefix).getLastD [] := by
  have hmin : min 1000 ((pitEntriesOf nt).countP (isEligible records now namePrefix outFace)) =
      (pitEntriesOf nt).countP (isEligible records now namePrefix outFace) :=
    Nat.min_eq_right (countP_eligible_le.trans hcount)
  have hiff : (∀ pitEntry, InPit nt pitEntry → isEligible records now namePrefix outFace pitEntry = true →
      pitEntry ∈ lastPulls nt records now namePrefix outFace) ↔
        ∀ pitEntry, InPit nt pitEntry → isEligible records now namePrefix outFace pitEntry = true →
          pitEntry ∈ (pitNodes nt namePrefix).getLastD [] :=
    forall_congr' fun pitEntry => forall_congr' fun _ => forall_congr' fun heligible => mem_lastPulls_iff h hcount heligible
  rw [PullsAtLastNode, hmin, List.countP_eq_length_filter]
  change _ ∧ (lastPulls nt records now namePrefix outFace).length = _ ↔ _
  rw [lastPulls_perm_iff h, hiff]
  refine and_iff_right_of_imp fun hall pulls hpulls => ?_
  rw [List.eq_nil_iff_forall_not_mem]
  intro pitEntry hmem
  obtain ⟨hpull, hpending⟩ := List.mem_filter.mp hmem
  obtain ⟨hin, heligible⟩ := eligible_of_admitted h ((List.dropLast_sublist _).subset hpulls) hpull hpending
  have hlast := hall pitEntry hin heligible
  rw [pullsOf, admitted_all ((countP_pulled_le h).trans hcount), ← List.map_dropLast] at hpulls
  obtain ⟨node, hnode, rfl⟩ := List.mem_map.mp hpulls
  have hentry := (List.mem_filter.mp hpull).1
  have hne : pitNodes nt namePrefix ≠ [] := by
    rintro hempty
    rw [hempty] at hnode
    exact List.not_mem_nil hnode
  have hnodup : (pitNodes nt namePrefix).flatten.Nodup := nodup_flatten_pitNodes h
  rw [← List.dropLast_append_getLast hne, List.flatten_append, List.nodup_append] at hnodup
  refine hnodup.2.2 pitEntry (List.mem_flatten.mpr ⟨node, hnode, hentry⟩) pitEntry ?_ rfl
  rw [List.getLastD_eq_getLast?, List.getLast?_eq_getLast_of_ne_nil hne] at hlast
  simpa using hlast

variable [DecidableEq σ]

/-- A pull is exact if and only if all that it lets in unexpired is at the last node; up to the limit, if and only if all
eligible entries are at one node, the last. -/
theorem doPull_exact_iff (hreach : Reachable nt) (records : PitEntry σ → Records) (now : ℤ) (namePrefix : Name)
    (outFace : Face) :
    ∃ sends rounds, (∀ r, rounds ≤ r → doPull nt records now namePrefix outFace true r = some sends) ∧
      (PullsExactly nt records now namePrefix outFace sends ↔ PullsAtLastNode nt records now namePrefix outFace) ∧
      ((pitEntriesOf nt).countP (isCandidate records namePrefix outFace) ≤ 1000 →
        (PullsExactly nt records now namePrefix outFace sends ↔
          ∀ pitEntry, InPit nt pitEntry → isEligible records now namePrefix outFace pitEntry = true →
            pitEntry ∈ (pitNodes nt namePrefix).getLastD [])) := by
  have h := hreach.attached
  obtain ⟨rounds, hrounds⟩ := @doPull_eq _ _ records now namePrefix outFace h
  have hexact := @pullsExactly_iff _ _ records now namePrefix outFace h
  exact ⟨_, rounds, hrounds, hexact, fun hcount => hexact.trans (pullsAtLastNode_iff h hcount)⟩

end Exact

section Examples

def a : Component := ⟨8, [97]⟩

def alice : Face := ⟨257, .scopeNonLocal, .pointToPoint⟩

def bob : Face := ⟨258, .scopeNonLocal, .pointToPoint⟩

def interestOf (octet : UInt8) : PitEntry Unit := ⟨[a, ⟨8, [octet]⟩], (), []⟩

def twoInterests : NameTree Unit :=
  call (call NameTree.empty (.findOrInsert (interestOf 98) true)) (.findOrInsert (interestOf 99) true)

theorem twoInterests_reachable : Reachable twoInterests := .call _ (.call _ .empty trivial) trivial

def fromAlice (_ : PitEntry Unit) : Records := ⟨[⟨alice, 1, 0, 4000000000⟩], []⟩

theorem doPull_exact_iff_one :
    ∃ sends rounds,
      (∀ r, rounds ≤ r → doPull twoInterests fromAlice 0 [a, ⟨8, [98]⟩] bob true r = some sends) ∧
      PullsExactly twoInterests fromAlice 0 [a, ⟨8, [98]⟩] bob sends := by
  obtain ⟨sends, rounds, hrounds, -, hexact⟩ :=
    doPull_exact_iff twoInterests_reachable fromAlice 0 [a, ⟨8, [98]⟩] bob
  refine ⟨sends, rounds, hrounds, (hexact (by decide)).mpr fun pitEntry hin heligible => ?_⟩
  have hall : ∀ pitEntry ∈ pitEntriesOf twoInterests,
      isEligible fromAlice 0 [a, ⟨8, [98]⟩] bob pitEntry = true →
        pitEntry ∈ (pitNodes twoInterests [a, ⟨8, [98]⟩]).getLastD [] := by decide
  exact hall pitEntry ((mem_pitEntriesOf twoInterests_reachable.attached pitEntry).mpr hin) heligible

/-- The first of two pending Interests is pulled twice. -/
theorem pulled_twice :
    doPull twoInterests fromAlice 0 [a] bob true 9 =
        some ([interestOf 98, interestOf 98, interestOf 99].map fun pitEntry => ⟨1000000, bob, pitEntry⟩) ∧
      ¬ PullsExactly twoInterests fromAlice 0 [a] bob
        ([interestOf 98, interestOf 98, interestOf 99].map fun pitEntry => ⟨1000000, bob, pitEntry⟩) := by
  refine ⟨by decide, fun h => ?_⟩
  have honce := h.once
  revert honce
  decide

end Examples

end LeoNdn.InterestPulls
