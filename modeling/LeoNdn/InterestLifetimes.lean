import LeoNdn.InterestCodec
import LeoNdn.PitPipelines
import LeoNdn.RouteRenewal

/-!
The lifetime of an Interest in 64-bit nanoseconds: when its in-record expires, and
the expiry timer of the PIT entry.
-/

namespace LeoNdn.InterestLifetimes

open LeoNdn.NdnPacket LeoNdn.PitPipelines LeoNdn.Runs
open LeoNdn.Forwarder (Face FaceRecord)
open LeoNdn.RibManager (toInt64)
open LeoNdn.RouteRenewal (toInt64_eq toInt64_lt)

variable {σ : Type}

/-- A time point of the steady clock, in nanoseconds since its epoch. -/
abbrev TimePoint := {now : ℤ // 0 ≤ now ∧ now < 9223372036854775808}

section Pipelines

def lifetimeOf (interest : PitPipelines.Interest σ) : ℤ :=
  if interest.m_interestLifetime < 0 then InterestCodec.DEFAULT_INTEREST_LIFETIME else interest.m_interestLifetime

/-- `FaceRecord::update`, where the nanoseconds and the sum are kept in 64 bits. -/
def update (now : TimePoint) (interest : PitPipelines.Interest σ) (record : FaceRecord) : FaceRecord :=
  { record with
    m_lastNonce := interest.m_nonce, m_lastRenewed := now, m_expiry := toInt64 (now + toInt64 (lifetimeOf interest * 1000000)) }

def insertOrUpdateInRecord (now : TimePoint) (face : Face) (interest : PitPipelines.Interest σ) (entry : PitEntry σ) :
    PitEntry σ :=
  { entry with
    m_inRecords := insertOrUpdate (fun record => record.m_face = face)
      (fun record => ⟨update now interest record.toFaceRecord, interest⟩) ⟨⟨face, 0, 0, 0⟩, interest⟩ entry.m_inRecords }

def lastExpiring (entry : PitEntry σ) : Option ℤ := (entry.m_inRecords.map (fun record => record.m_expiry)).max?

/-- The milliseconds that `onContentStoreMiss` gives to `setExpiryTimer`. -/
def lastExpiryFromNow (now : TimePoint) (entry : PitEntry σ) : ℤ :=
  Int.tdiv (toInt64 ((lastExpiring entry).getD now - now)) 1000000

inductive Event (σ : Type)
  | onContentStoreMiss (now : TimePoint) (inFace : Face) (interest : PitPipelines.Interest σ)
  | deleteInRecord (face : Face)
  | clearInRecords

def apply (entry : PitEntry σ) : Event σ → PitEntry σ
  | .onContentStoreMiss now inFace interest => insertOrUpdateInRecord now inFace interest entry
  | .deleteInRecord face => deleteInRecord face entry
  | .clearInRecords => clearInRecords entry

def newEntry (interest : PitPipelines.Interest σ) : PitEntry σ := ⟨interest, [], [], false, 0, none⟩

def trueExpiry (record : InRecord σ) : ℤ := record.m_lastRenewed + lifetimeOf record.m_interest * 1000000

/-- The new in-record does not expire before now, the assertion of `setExpiryTimer`
holds, and the timer is set by the last of the true expiries. -/
structure MissRight (entry : PitEntry σ) (now : TimePoint) (inFace : Face) (interest : PitPipelines.Interest σ) :
    Prop where
  notBefore : ∀ record, (insertOrUpdateInRecord now inFace interest entry).m_inRecords.find?
    (fun record => record.m_face = inFace) = some record → now ≤ record.m_expiry
  asserted : 0 ≤ lastExpiryFromNow now (insertOrUpdateInRecord now inFace interest entry)
  latest : lastExpiring (insertOrUpdateInRecord now inFace interest entry) =
    ((insertOrUpdateInRecord now inFace interest entry).m_inRecords.map trueExpiry).max?

def EventRight (entry : PitEntry σ) : Event σ → Prop
  | .onContentStoreMiss now inFace interest => MissRight entry now inFace interest
  | _ => True

/-- The clock can be moved on by the lifetime of the Interest. -/
def EventFits : Event σ → Prop
  | .onContentStoreMiss now _ interest => now + lifetimeOf interest * 1000000 < 9223372036854775808
  | _ => True

end Pipelines

section Lifetimes

variable {entry : PitEntry σ} {now : TimePoint} {inFace : Face} {interest : PitPipelines.Interest σ} {record : InRecord σ}

theorem lifetimeOf_nonneg (interest : PitPipelines.Interest σ) : 0 ≤ lifetimeOf interest := by
  unfold lifetimeOf
  split
  · decide
  · omega

theorem toInt64_add_toInt64 (a b : ℤ) : toInt64 (a + toInt64 b) = toInt64 (a + b) := by
  unfold toInt64
  omega

/-- Each in-record has the expiry of its Interest, which 64 bits hold. -/
def AllFit (entry : PitEntry σ) : Prop :=
  ∀ record ∈ entry.m_inRecords, record.m_expiry = trueExpiry record ∧ trueExpiry record < 9223372036854775808

theorem AllFit.deleteInRecord (h : AllFit entry) (face : Face) : AllFit (deleteInRecord face entry) :=
  fun record hrecord => h record (List.mem_of_mem_eraseP hrecord)

theorem AllFit.clearInRecords : AllFit (clearInRecords entry) := fun _ hrecord => absurd hrecord List.not_mem_nil

theorem AllFit.insert (h : AllFit entry) (hfits : now + lifetimeOf interest * 1000000 < 9223372036854775808) :
    AllFit (insertOrUpdateInRecord now inFace interest entry) := by
  intro record hrecord
  rcases mem_insertOrUpdate hrecord with hold | rfl
  · exact h record hold
  · have hlifetime := lifetimeOf_nonneg interest
    have hnow := now.2
    refine ⟨?_, hfits⟩
    change toInt64 (now + toInt64 (lifetimeOf interest * 1000000)) = now + lifetimeOf interest * 1000000
    rw [toInt64_add_toInt64]
    exact toInt64_eq (by omega) hfits

theorem find?_insertOrUpdateInRecord (entry : PitEntry σ) :
    ∃ record, (insertOrUpdateInRecord now inFace interest entry).m_inRecords.find? (fun record => record.m_face = inFace) =
      some record ∧ record.m_expiry = toInt64 (now + lifetimeOf interest * 1000000) ∧
      trueExpiry record = now + lifetimeOf interest * 1000000 := by
  refine ⟨_, find?_insertOrUpdate ?_, toInt64_add_toInt64 _ _, rfl⟩
  cases hfind : entry.m_inRecords.find? (fun record => record.m_face = inFace) with
  | none => exact decide_eq_true rfl
  | some old =>
    have hface : old.m_face = inFace := by simpa using List.find?_some hfind
    exact decide_eq_true hface

theorem exists_max {α : Type} (f : α → ℤ) {records : List α} {r : α} (hr : r ∈ records) :
    ∃ latest ∈ records, (records.map f).max? = some (f latest) ∧ ∀ other ∈ records, f other ≤ f latest := by
  obtain ⟨last, hlast⟩ := Option.isSome_iff_exists.mp (List.isSome_max?_of_mem (List.mem_map_of_mem (f := f) hr))
  obtain ⟨hmem, hmax⟩ := List.max?_eq_some_iff.mp hlast
  obtain ⟨latest, hlatest, rfl⟩ := List.mem_map.mp hmem
  exact ⟨latest, hlatest, hlast, fun other hother => hmax _ (List.mem_map_of_mem hother)⟩

theorem lastExpiring_eq (h : AllFit entry) : lastExpiring entry = (entry.m_inRecords.map trueExpiry).max? :=
  congrArg List.max? (List.map_congr_left fun record hrecord => (h record hrecord).1)

theorem lastExpiring_range (h : AllFit entry) (hrecord : record ∈ entry.m_inRecords) (hnow : now ≤ record.m_expiry) :
    ∃ last, lastExpiring entry = some last ∧ now ≤ last ∧ last < 9223372036854775808 := by
  obtain ⟨latest, hlatest, hlast, hmax⟩ := exists_max (fun record : InRecord σ => record.m_expiry) hrecord
  have hbound := (h latest hlatest).2
  rw [← (h latest hlatest).1] at hbound
  exact ⟨latest.m_expiry, hlast, hnow.trans (hmax record hrecord), hbound⟩

theorem lastExpiryFromNow_eq_tdiv (h : AllFit entry) (hrecord : record ∈ entry.m_inRecords) (hnow : now ≤ record.m_expiry) :
    lastExpiryFromNow now entry = Int.tdiv ((lastExpiring entry).getD now - now) 1000000 := by
  obtain ⟨last, hlast, hle, hlt⟩ := lastExpiring_range h hrecord hnow
  have hclock := now.2
  unfold lastExpiryFromNow
  rw [hlast, Option.getD_some, toInt64_eq (by omega) (by omega)]

theorem lastExpiryFromNow_nonneg (h : AllFit entry) (hrecord : record ∈ entry.m_inRecords)
    (hnow : now ≤ record.m_expiry) : 0 ≤ lastExpiryFromNow now entry := by
  obtain ⟨last, hlast, hle, -⟩ := lastExpiring_range h hrecord hnow
  rw [lastExpiryFromNow_eq_tdiv h hrecord hnow, hlast, Option.getD_some]
  exact Int.tdiv_nonneg (by omega) (by decide)

theorem missRight_iff (h : AllFit entry) :
    MissRight entry now inFace interest ↔ now + lifetimeOf interest * 1000000 < 9223372036854775808 := by
  obtain ⟨record, hfind, hexpiry, htrue⟩ := @find?_insertOrUpdateInRecord _ now inFace interest entry
  have hlifetime := lifetimeOf_nonneg interest
  have hclock := now.2
  constructor
  · intro hright
    have hmem := List.mem_of_find?_eq_some hfind
    obtain ⟨last, hlast, hmax, -⟩ := exists_max (fun record : InRecord σ => record.m_expiry) hmem
    obtain ⟨latest, -, hlatest, hle⟩ := exists_max trueExpiry hmem
    -- the latest true expiry is the expiry of a record, which 64 bits hold
    have heq := hright.latest
    rw [lastExpiring, hmax, hlatest, Option.some_inj] at heq
    have hbound : last.m_expiry < 9223372036854775808 := by
      rcases mem_insertOrUpdate hlast with hold | rfl
      · rw [(h last hold).1]
        exact (h last hold).2
      · exact toInt64_lt _
    have hrecord := hle record hmem
    omega
  · intro hfits
    have hall : AllFit (insertOrUpdateInRecord now inFace interest entry) := h.insert hfits
    have hmem := List.mem_of_find?_eq_some hfind
    rw [toInt64_eq (by omega) hfits] at hexpiry
    have hnotBefore : now ≤ record.m_expiry := by omega
    refine ⟨fun other hother => ?_, lastExpiryFromNow_nonneg hall hmem hnotBefore, lastExpiring_eq hall⟩
    rw [hfind, Option.some_inj] at hother
    exact hother ▸ hnotBefore

theorem eventRight_iff (h : AllFit entry) (event : Event σ) : EventRight entry event ↔ EventFits event := by
  cases event with
  | onContentStoreMiss now inFace interest => exact missRight_iff h
  | deleteInRecord face => exact Iff.rfl
  | clearInRecords => exact Iff.rfl

theorem AllFit.apply (h : AllFit entry) {event : Event σ} (hfits : EventFits event) : AllFit (apply entry event) := by
  cases event with
  | onContentStoreMiss now inFace interest => exact h.insert hfits
  | deleteInRecord face => exact h.deleteInRecord face
  | clearInRecords => exact AllFit.clearInRecords

end Lifetimes

section Runs

/-- Over every run of an entry from its making. -/
theorem expiresRight_always_iff (interest : PitPipelines.Interest σ) (events : List (Event σ)) :
    EachStep apply EventRight (newEntry interest) events ↔ ∀ event ∈ events, EventFits event := by
  have hnew : AllFit (newEntry interest) := fun _ hrecord => absurd hrecord List.not_mem_nil
  have hstep (entry : PitEntry σ) (event : Event σ) (h : AllFit entry) (_ : True) (hright : EventRight entry event) :
      AllFit (apply entry event) := h.apply ((eventRight_iff h event).mp hright)
  rw [eachStep_iff (Q := fun _ event => EventFits event) hstep (fun _ event h _ => eventRight_iff h event) hnew
    (eachStep_true _ events)]
  exact eachStep_of_event

end Runs

section Samples

def consumerFace : Face := ⟨257, .scopeNonLocal, .pointToPoint⟩

def received (interest : InterestCodec.Interest) : PitPipelines.Interest InterestSelectors.Selectors :=
  ⟨interest.m_name, interest.m_selectors, (interest.m_nonce.getD 0).toNat, interest.m_interestLifetime,
    interest.m_forwardingHint.m_dels.map (fun delegation => delegation.name), none⟩

def longInterest : List UInt8 := [5, 21, 7, 3, 8, 1, 97, 10, 4, 1, 2, 3, 4, 12, 8, 0, 0, 8, 99, 123, 208, 90, 247]

theorem lifetime_wraps_into_the_past : ∃ interest,
    (Tlv.Block.ofBuffer longInterest >>= InterestCodec.Interest.ofWire 0) = .ok interest ∧
      ¬ EachStep apply EventRight (newEntry (received interest))
        [.onContentStoreMiss ⟨1000000000, by decide, by decide⟩ consumerFace (received interest)] := by
  refine ⟨⟨[⟨8, [97]⟩], SelectorsCodec.Selectors.initial, some 67305985, 9223372036855, ⟨true, []⟩, none,
    some ⟨5, [7, 3, 8, 1, 97, 10, 4, 1, 2, 3, 4, 12, 8, 0, 0, 8, 99, 123, 208, 90, 247]⟩⟩, ?_, ?_⟩
  · decide
  · intro h
    have hnow := h.1.notBefore _ rfl
    revert hnow
    decide

end Samples

end LeoNdn.InterestLifetimes
