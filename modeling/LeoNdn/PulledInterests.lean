import LeoNdn.PitTimers
import LeoNdn.Runs
import LeoNdn.InterestPulls

/-!
The Interests that pulls send past the outgoing pipeline, among the pipelines of
the forwarder.
-/

namespace LeoNdn.PulledInterests

open LeoNdn.NdnPacket LeoNdn.PitPipelines LeoNdn.Runs
open LeoNdn.Forwarder (Face)
open LeoNdn.InterestPulls (Records pullRounds)

variable {σ κ δ : Type}

/-- A send that a pull has scheduled: that of the Interest of the entry, as it is. The time that was left to the last
in-record went into an Interest that is not sent. -/
structure Pull (σ : Type) where
  time : ℤ
  outFace : Face
  interest : Interest σ
  pitEntry : ℕ
  lastExpiryFromNow : ℤ
  deriving DecidableEq, Repr

structure System (σ κ δ : Type) where
  forwarder : State σ κ δ
  pulls : List (Pull σ)

section Pulls

variable (s : State σ κ δ)

def recordsOf (i : ℕ) : Records :=
  match s.entries[i]? with
  | none => ⟨[], []⟩
  | some entry => ⟨entry.m_inRecords.map InRecord.toFaceRecord, entry.m_outRecords.map OutRecord.toFaceRecord⟩

def isPulled (outFace : Face) (i : ℕ) : Bool := InterestPulls.isPulled outFace (recordsOf s i)

def isPending (i : ℕ) : Bool := InterestPulls.isPending s.now (recordsOf s i)

def pullOf (outFace : Face) (i : ℕ) : Option (Pull σ) :=
  (s.entries[i]?).map (fun entry => ⟨s.now + 1000000, outFace, entry.m_interest, i, lastExpiryFromNow s i⟩)

/-- The nodes are those that the name tree has under the prefix. -/
def doPull (nodes : List (List ℕ)) (outFace : Face) : List (Pull σ) :=
  (pullRounds (isPulled s outFace) (isPending s) nodes 1000 []).filterMap (pullOf s outFace)

end Pulls

inductive Event (σ κ δ : Type)
  | pipeline (event : PitPipelines.Event σ κ δ)
  | pull (nodes : List (List ℕ)) (outFace : Face)
  | sendPull (k : ℕ)

def send (st : System σ κ δ) (k : ℕ) (pull : Pull σ) : System σ κ δ :=
  ⟨st.forwarder.send pull.outFace (.interest pull.interest), st.pulls.eraseIdx k⟩

/-- What cannot happen changes nothing. -/
def step [DecidableEq σ] (ctx : Context σ κ δ) (st : System σ κ δ) : Event σ κ δ → System σ κ δ
  | .pipeline event => { st with forwarder := (PitPipelines.step ctx st.forwarder event).getD st.forwarder }
  | .pull nodes outFace => { st with pulls := st.pulls ++ doPull st.forwarder nodes outFace }
  | .sendPull k =>
    match st.pulls[k]? with
    | none => st
    | some pull => if pull.time ≤ st.forwarder.now then send st k pull else st

section Accounting

variable [DecidableEq σ] (ctx : Context σ κ δ)

/-- The out-record of the entry for a face has the nonce of the Interest. -/
def hasOutRecord (s : State σ κ δ) (i : ℕ) (outFace : Face) (nonce : ℕ) : Bool :=
  (s.entries[i]?).any (fun entry =>
    (entry.m_outRecords.find? (fun record => record.m_face = outFace)).any (fun record => record.m_lastNonce = nonce))

def acceptsNack (s : State σ κ δ) (inFace : Face) (interest : Interest σ) : Bool :=
  inFace.linkType = .pointToPoint && (find s interest).any (fun i => hasOutRecord s i inFace interest.m_nonce)

/-- What is to hold once the Interest of a pull has been sent. -/
structure Accounted (s : State σ κ δ) (pull : Pull σ) : Prop where
  lifetime : pull.interest.m_interestLifetime = pull.lastExpiryFromNow
  pitEntry : find s pull.interest = some pull.pitEntry
  outRecord : hasOutRecord s pull.pitEntry pull.outFace pull.interest.m_nonce = true
  notPulled : isPulled s pull.outFace pull.pitEntry = false
  nack : pull.outFace.linkType = .pointToPoint → acceptsNack s pull.outFace pull.interest = true
  data : ∀ data, (s.entries[pull.pitEntry]?).any (fun entry => ctx.matchesData entry.m_interest data) = true →
    pull.pitEntry ∈ findAllDataMatches ctx s data

variable {ctx} {s : State σ κ δ} {pull : Pull σ}

end Accounting

section Examples

def aliceInterest : Interest Unit := ⟨[⟨8, [97]⟩], (), 7, 4000, [], none⟩

def alice : Face := ⟨256, .scopeNonLocal, .pointToPoint⟩

def bob : Face := ⟨257, .scopeNonLocal, .pointToPoint⟩

def start : System Unit Unit (List (Name × ℕ)) := ⟨State.initial () [], []⟩

end Examples

end LeoNdn.PulledInterests
