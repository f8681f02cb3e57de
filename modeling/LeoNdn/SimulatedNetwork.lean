import LeoNdn.Loops
import Mathlib.Logic.Function.Basic
import Mathlib.Tactic.Ring

/-!
The parts of the simulated network that the satellite scenario builds on:
point-to-point links, the faces of each node, and the next hops in each FIB.
-/

namespace LeoNdn.SimulatedNetwork

/-- How a run of the simulator can end in the middle of a function. -/
inductive Fault
  | nullPointer
  | assertion
  | fatalError
  deriving DecidableEq, Repr

def deref {α : Type} : Option α → Except Fault α
  | some a => .ok a
  | none => .error .nullPointer

/-- `BOOST_ASSERT` or `NS_ASSERT_MSG` of a pointer. -/
def assertNonNull {α : Type} : Option α → Except Fault α
  | some a => .ok a
  | none => .error .assertion

theorem deref_ok {α : Type} {o : Option α} {a : α} (h : deref o = .ok a) : o = some a := by
  cases o with
  | none => cases h
  | some b => cases h; rfl

abbrev NodeId := ℕ
abbrev FaceId := ℕ

/-- A `PointToPointNetDevice`. Addresses are allocated in order, one a device. -/
structure NetDevice where
  address : ℕ
  node : NodeId
  deriving DecidableEq, Repr

/-- The identifier of a user link, `"<station address>-<satellite address>"`. -/
abbrev UserLinkId := ℕ × ℕ

/-- A non-local face with its `UserLinkTransport`; `m_id` is empty until set. -/
structure Face where
  id : FaceId
  netDevice : NetDevice
  m_isUserLink : Bool := false
  m_isGone : Bool := false
  m_id : Option UserLinkId := none
  deriving DecidableEq, Repr

/-- `channels` are the installed links, oldest first; `fib n prefix face` is the
metric of the next hop, `none` where there is none; `userLinks n` are the calls
of `AddUserLink` on the node's `HandoverManager`. -/
structure Network where
  nextAddress : ℕ
  nextFaceId : NodeId → FaceId
  channels : List (NetDevice × NetDevice)
  faces : NodeId → List Face
  fib : NodeId → String → FaceId → Option ℤ
  userLinks : NodeId → List (UserLinkId × FaceId)

namespace Network

variable (net : Network)

/-- `PointToPointHelper::Install`: a new device on each node and a channel. -/
def Install (a b : NodeId) : (NetDevice × NetDevice) × Network :=
  let devices := (⟨net.nextAddress, a⟩, ⟨net.nextAddress + 1, b⟩)
  (devices, { net with nextAddress := net.nextAddress + 2, channels := net.channels ++ [devices] })

def peer (d : NetDevice) : Option NetDevice :=
  net.channels.findSome? (fun c => if c.1 = d then some c.2 else if c.2 = d then some c.1 else none)

/-- `L3Protocol::getFaceByNetDevice`; no face has a null device. -/
def getFaceByNetDevice (n : NodeId) (d : Option NetDevice) : Option Face :=
  d.bind (fun d => (net.faces n).find? (fun f => f.netDevice = d))

def modifyFace (n : NodeId) (d : NetDevice) (g : Face → Face) : Network :=
  let faces := (net.faces n).map (fun f => if f.netDevice = d then g f else f)
  { net with faces := Function.update net.faces n faces }

/-- `FibHelper::AddRoute` towards a face. -/
def AddRoute (n : NodeId) (namePrefix : String) (face : FaceId) (metric : ℤ) : Network :=
  let nextHops := Function.update (net.fib n namePrefix) face (some metric)
  { net with fib := Function.update net.fib n (Function.update (net.fib n) namePrefix nextHops) }

/-- `FibHelper::RemoveRoute` of a face. -/
def RemoveRoute (n : NodeId) (namePrefix : String) (face : FaceId) : Network :=
  let nextHops := Function.update (net.fib n namePrefix) face none
  { net with fib := Function.update net.fib n (Function.update (net.fib n) namePrefix nextHops) }

/-- The first device of `n` whose channel has `other` at one of its ends. -/
def deviceTowards (n other : NodeId) : Option NetDevice :=
  net.channels.findSome? (fun c =>
    if c.1.node = other ∨ c.2.node = other then
      if c.1.node = n then some c.1 else if c.2.node = n then some c.2 else none
    else none)

/-- The face that `FibHelper` routes through from `n` to the node `other`. -/
def faceTowards (n other : NodeId) : Except Fault Face :=
  match net.deviceTowards n other with
  | none => .error .fatalError
  | some d => assertNonNull (net.getFaceByNetDevice n (some d))

def maxMetric : ℤ := 2147483647

/-- `L3Protocol::addFace`. -/
def addFace (n : NodeId) (face : Face) : Network :=
  { net with
    nextFaceId := Function.update net.nextFaceId n (net.nextFaceId n + 1)
    faces := Function.update net.faces n (net.faces n ++ [face]) }

/-- `createAndRegisterFace`: a face for the device, with a default route. -/
def createAndRegisterFace (n : NodeId) (d : NetDevice) : Network :=
  let face : Face := { id := net.nextFaceId n, netDevice := d }
  (net.addFace n face).AddRoute n "/" face.id maxMetric

/-- `HandoverManager::AddUserLink` on the node. -/
def AddUserLink (n : NodeId) (id : UserLinkId) (face : FaceId) : Network :=
  { net with userLinks := Function.update net.userLinks n (net.userLinks n ++ [(id, face)]) }

end Network

end LeoNdn.SimulatedNetwork
