import LeoNdn.ProcessNackTraits
import LeoNdn.ContentStoreTable
import LeoNdn.Schedulers

/-!
The Interests an application has expressed on its face: each is pending until Data, a
Nack or the timeout comes, and the application is called back.
-/

namespace LeoNdn.FaceCallbacks

open LeoNdn.NdnPacket LeoNdn.Schedulers
open LeoNdn.PitPipelines (Interest)
open LeoNdn.ProcessNackTraits (getReason isLessSevere)
open LeoNdn.ContentStoreTable (toNanoseconds)

variable {σ φ : Type} [DecidableEq σ]

inductive PendingInterestOrigin
  | app
  | forwarder
  deriving DecidableEq, Repr

structure Nack (σ : Type) where
  m_interest : Interest σ
  m_reason : ℕ
  deriving DecidableEq, Repr

/-- The number stands for the pointer that identifies it. -/
structure PendingInterest (σ : Type) where
  id : ℕ
  m_interest : Interest σ
  m_origin : PendingInterestOrigin
  m_timeoutEvent : ℕ
  m_nNotNacked : ℤ
  m_leastSevereNack : Option (Nack σ)
  deriving DecidableEq, Repr

structure InterestFilterRecord (φ : Type) where
  id : ℕ
  m_filter : φ
  deriving DecidableEq, Repr

inductive Packet (σ : Type)
  | interest (interest : Interest σ)
  | data (data : Data)
  | nack (nack : Nack σ)
  deriving DecidableEq, Repr

inductive Call (σ : Type)
  | onData (id : ℕ) (data : Data)
  | onNack (id : ℕ) (nack : Nack σ)
  | onTimeout (id : ℕ)
  | onInterest (filterId : ℕ) (interest : Interest σ)
  deriving DecidableEq, Repr

/-- How Interests and Data match, and the size limit of `finishEncoding`. -/
structure Context (σ φ : Type) where
  matchesData : Interest σ → Data → Bool
  doesMatch : φ → Name → Bool
  allowsLoopback : φ → Bool
  fits : Packet σ → Bool

structure Face (σ φ : Type) where
  now : ℤ
  m_scheduler : Scheduler ℕ
  newId : ℕ
  m_pendingInterestTable : List (PendingInterest σ)
  m_interestFilterTable : List (InterestFilterRecord φ)
  sent : List (Packet σ)
  calls : List (Call σ)

def Face.initial : Face σ φ := ⟨0, Scheduler.empty, 0, [], [], [], []⟩

namespace PendingInterest

def recordForwarding (entry : PendingInterest σ) : PendingInterest σ := { entry with m_nNotNacked := entry.m_nNotNacked + 1 }

/-- The Nack that is passed on is the one that is kept, once all destinations have sent one. -/
def recordNack (nack : Nack σ) (entry : PendingInterest σ) : PendingInterest σ :=
  { entry with
    m_nNotNacked := entry.m_nNotNacked - 1
    m_leastSevereNack :=
      match entry.m_leastSevereNack with
      | none => some nack
      | some least => if isLessSevere (getReason nack.m_reason) (getReason least.m_reason) then some nack else some least }

end PendingInterest

def matchesInterest (interest other : Interest σ) : Bool :=
  interest.m_name = other.m_name && interest.m_selectors = other.m_selectors

namespace Face

variable (ctx : Context σ φ) (s : Face σ φ)

def insertPending (interest : Interest σ) (origin : PendingInterestOrigin) : Face σ φ :=
  { s with
    m_scheduler := s.m_scheduler.scheduleEvent s.now (toNanoseconds interest.m_interestLifetime) s.newId
    newId := s.newId + 1
    m_pendingInterestTable := s.m_pendingInterestTable ++ [⟨s.newId, interest, origin, s.m_scheduler.nextId, 0, none⟩] }

def modifyPending (id : ℕ) (f : PendingInterest σ → PendingInterest σ) : Face σ φ :=
  { s with m_pendingInterestTable := s.m_pendingInterestTable.map (fun entry => if entry.id = id then f entry else entry) }

/-- Where no filter is set for Interests of the application itself, they go to the forwarder only. -/
def filterMatches (origin : PendingInterestOrigin) (interest : Interest σ) (filter : InterestFilterRecord φ) : Bool :=
  (origin = .forwarder || ctx.allowsLoopback filter.m_filter) && ctx.doesMatch filter.m_filter interest.m_name

def invokeInterestCallback (id : ℕ) (interest : Interest σ) (s : Face σ φ) (filter : InterestFilterRecord φ) : Face σ φ :=
  let s := s.modifyPending id PendingInterest.recordForwarding
  { s with calls := s.calls ++ [.onInterest filter.id interest] }

def dispatchInterest (id : ℕ) (origin : PendingInterestOrigin) (interest : Interest σ) : Face σ φ :=
  (s.m_interestFilterTable.filter (filterMatches ctx origin interest)).foldl (invokeInterestCallback id interest) s

/-- A packet that is too large is not sent, and an exception is thrown. -/
def send (packet : Packet σ) : Option (Face σ φ) :=
  if ctx.fits packet then some { s with sent := s.sent ++ [packet] } else none

def asyncExpressInterest (interest : Interest σ) : Option (Face σ φ) :=
  let pending := (s.insertPending interest .app).modifyPending s.newId PendingInterest.recordForwarding
  (pending.send ctx (.interest interest)).map (fun sent => sent.dispatchInterest ctx s.newId .app interest)

def processIncomingInterest (interest : Interest σ) : Face σ φ :=
  (s.insertPending interest .forwarder).dispatchInterest ctx s.newId .forwarder interest

def removeIf (p : PendingInterest σ → Bool) : Face σ φ :=
  { s with
    m_scheduler := (s.m_pendingInterestTable.filter p).foldl (fun scheduler entry => scheduler.cancel (some entry.m_timeoutEvent))
      s.m_scheduler
    m_pendingInterestTable := s.m_pendingInterestTable.filter (fun entry => ! p entry) }

def callsOf (call : PendingInterest σ → Call σ) (entries : List (PendingInterest σ)) : List (Call σ) :=
  (entries.filter (fun entry => entry.m_origin = .app)).map call

def satisfyPendingInterests (data : Data) : Face σ φ × Bool :=
  let satisfied := s.m_pendingInterestTable.filter (fun entry => ctx.matchesData entry.m_interest data)
  let hasAppMatch := satisfied.any (fun entry => entry.m_origin = .app)
  let hasForwarderMatch := satisfied.any (fun entry => entry.m_origin = .forwarder)
  ({ s.removeIf (fun entry => ctx.matchesData entry.m_interest data) with
      calls := s.calls ++ callsOf (fun entry => .onData entry.id data) satisfied }, hasForwarderMatch || ! hasAppMatch)

def noteNack (nack : Nack σ) : Face σ φ :=
  { s with m_pendingInterestTable := s.m_pendingInterestTable.map (fun entry =>
      if matchesInterest nack.m_interest entry.m_interest then entry.recordNack nack else entry) }

def allNacked (nack : Nack σ) (entry : PendingInterest σ) : Bool :=
  matchesInterest nack.m_interest entry.m_interest && entry.m_nNotNacked ≤ 0

/-- The Nack beside the state is for the forwarder. -/
def nackPendingInterests (nack : Nack σ) : Face σ φ × Option (Nack σ) :=
  let s := s.noteNack nack
  let nacked := s.m_pendingInterestTable.filter (allNacked nack)
  ({ s.removeIf (allNacked nack) with
      calls := s.calls ++ callsOf (fun entry => .onNack entry.id (entry.m_leastSevereNack.getD nack)) nacked },
    ((nacked.filter (fun entry => entry.m_origin = .forwarder)).getLast?).bind PendingInterest.m_leastSevereNack)

def asyncPutData (data : Data) : Option (Face σ φ) :=
  let (s, shouldSendToForwarder) := s.satisfyPendingInterests ctx data
  if shouldSendToForwarder then s.send ctx (.data data) else some s

def asyncPutNack (nack : Nack σ) : Option (Face σ φ) :=
  let (s, outNack) := s.nackPendingInterests nack
  match outNack with
  | none => some s
  | some outNack => s.send ctx (.nack outNack)

/-- The event at the head of the scheduler is executed; there is a callback for Interests of
the application only. -/
def invokeTimeoutCallback : Option (Face σ φ) :=
  (s.m_scheduler.popExpired s.now).map (fun (info, scheduler) =>
    { s with
      m_scheduler := scheduler
      calls := s.calls ++ callsOf (fun entry => .onTimeout entry.id)
        (s.m_pendingInterestTable.filter (fun entry => entry.id = info.callback))
      m_pendingInterestTable := s.m_pendingInterestTable.filter (fun entry => ! decide (entry.id = info.callback)) })

end Face

/-- What the application has asked for, each executed as an event of its own, what the
forwarder sends, and time. -/
inductive Op (σ φ : Type)
  | expressInterest (interest : Interest σ)
  | removePendingInterest (id : ℕ)
  | removeAllPendingInterests
  | putData (data : Data)
  | putNack (nack : Nack σ)
  | setInterestFilter (filter : InterestFilterRecord φ)
  | unsetInterestFilter (id : ℕ)
  | receiveInterest (interest : Interest σ)
  | receiveData (data : Data)
  | receiveNack (nack : Nack σ)
  | elapse (duration : ℕ)
  | expire

/-- The Interests the application has expressed, with the time, and those it has removed. -/
structure History (σ : Type) where
  expressed : List (ℕ × Interest σ × ℤ)
  removed : List ℕ

variable (ctx : Context σ φ)

def step (s : Face σ φ) : Op σ φ → Option (Face σ φ)
  | .expressInterest interest => s.asyncExpressInterest ctx interest
  | .removePendingInterest id => some (s.removeIf (fun entry => entry.id = id))
  | .removeAllPendingInterests => some (s.removeIf (fun _ => true))
  | .putData data => s.asyncPutData ctx data
  | .putNack nack => s.asyncPutNack ctx nack
  | .setInterestFilter filter => some { s with m_interestFilterTable := s.m_interestFilterTable ++ [filter] }
  | .unsetInterestFilter id => some { s with m_interestFilterTable := s.m_interestFilterTable.eraseP (fun filter => filter.id = id) }
  | .receiveInterest interest => some (s.processIncomingInterest ctx interest)
  | .receiveData data => some (s.satisfyPendingInterests ctx data).1
  | .receiveNack nack => some (s.nackPendingInterests nack).1
  | .elapse duration =>
    -- the clock does not pass an event that is due
    if s.m_scheduler.m_queue.all (fun info => s.now + duration ≤ info.expireTime) then some { s with now := s.now + duration }
    else none
  | .expire => s.invokeTimeoutCallback

def note (s : Face σ φ) (history : History σ) : Op σ φ → History σ
  | .expressInterest interest => { history with expressed := history.expressed ++ [(s.newId, interest, s.now)] }
  | .removePendingInterest id =>
    { history with removed := history.removed ++
        (s.m_pendingInterestTable.filter (fun entry => entry.id = id)).map PendingInterest.id }
  | .removeAllPendingInterests =>
    { history with removed := history.removed ++ s.m_pendingInterestTable.map PendingInterest.id }
  | _ => history

def run (ops : List (Op σ φ)) : Option (Face σ φ × History σ) :=
  ops.foldlM (fun observed op => (step ctx observed.1 op).map (fun s => (s, note observed.1 observed.2 op)))
    (Face.initial, ⟨[], []⟩)

end LeoNdn.FaceCallbacks
