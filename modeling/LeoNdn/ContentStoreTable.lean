import LeoNdn.InterestSelectors

/-!
The table of the Content Store: Data packets in the order of their full names,
searched by names.
-/

namespace LeoNdn.ContentStoreTable

open LeoNdn.Tlv LeoNdn.NdnPacket LeoNdn.InterestSelectors

def compareNames : Name → Name → Ordering
  | [], [] => .eq
  | [], _ :: _ => .lt
  | _ :: _, [] => .gt
  | component :: name, other :: others => (compareComponents component other).then (compareNames name others)

def incremented : List UInt8 → Bool × List UInt8
  | [] => (true, [])
  | octet :: octets =>
    let (isOverflow, rest) := incremented octets
    if isOverflow then (octet + 1 = 0, (octet + 1) :: rest) else (false, octet :: rest)

/-- `getSuccessorImpl`: the value is extended where it overflows. -/
def getSuccessorImpl (comp : Component) : Bool × Component :=
  let (isOverflow, value) := incremented comp.value
  (isOverflow, ⟨comp.type, if isOverflow then value ++ [0] else value⟩)

def isSha256Type (type : ℕ) : Bool := type = 1 || type = 2

def getMinValue (type : ℕ) : List UInt8 := if isSha256Type type then List.replicate 32 0 else []

def Component.getSuccessor (comp : Component) : Component :=
  let (isExtended, successor) := getSuccessorImpl comp
  if isSha256Type comp.type && isExtended then ⟨comp.type + 1, getMinValue (comp.type + 1)⟩ else successor

def Name.getSuccessor (name : Name) : Name :=
  match name.getLast? with
  | none => [⟨1, List.replicate 32 0⟩]
  | some comp => name.dropLast ++ [Component.getSuccessor comp]

def isImplicitSha256Digest (comp : Component) : Bool := comp.type = 1 && comp.value.length = 32

/-- Times are in nanoseconds. -/
structure Entry where
  m_data : Data
  m_isUnsolicited : Bool
  m_staleTime : ℤ
  deriving DecidableEq, Repr

inductive EntryImpl
  | query (m_queryName : Name)
  | stored (data : Data)

section Order

variable (computeDigest : Data → Vector UInt8 32)

def digestOf (data : Data) : Component := ⟨1, (computeDigest data).toList⟩

def compareQueryWithData (queryName : Name) (data : Data) : Ordering :=
  match queryName.getLast? with
  | some comp =>
    if isImplicitSha256Digest comp then
      (compareNames queryName.dropLast data.m_name).then (compareComponents comp (digestOf computeDigest data))
    else (compareNames queryName data.m_name).then .lt
  | none => (compareNames queryName data.m_name).then .lt

def compareDataWithData (lhs rhs : Data) : Ordering :=
  (compareNames lhs.m_name rhs.m_name).then (compareComponents (digestOf computeDigest lhs) (digestOf computeDigest rhs))

/-- `operator<`. -/
def EntryImpl.isLess : EntryImpl → EntryImpl → Bool
  | .query queryName, .query other => compareNames queryName other = .lt
  | .query queryName, .stored data => compareQueryWithData computeDigest queryName data = .lt
  | .stored data, .query queryName => compareQueryWithData computeDigest queryName data = .gt
  | .stored data, .stored other => compareDataWithData computeDigest data other = .lt

end Order

/-- `toNanoseconds` and sums of times are in 64 bits. -/
def toNanoseconds (milliseconds : ℤ) : ℤ := (milliseconds * 1000000).bmod (2 ^ 64)

def Entry.updateStaleTime (now : ℤ) (entry : Entry) : Entry :=
  { entry with m_staleTime := (now + toNanoseconds entry.m_data.getFreshnessPeriod).bmod (2 ^ 64) }

def Entry.isStale (now : ℤ) (entry : Entry) : Bool := entry.m_staleTime < now

def Entry.setData (now : ℤ) (data : Data) (isUnsolicited : Bool) : Entry :=
  Entry.updateStaleTime now ⟨data, isUnsolicited, 0⟩

structure Stored where
  it : ℕ
  entry : Entry
  deriving DecidableEq, Repr

section Table

variable (computeDigest : Data → Vector UInt8 32)

def isBefore (key : EntryImpl) (stored : Stored) : Bool := EntryImpl.isLess computeDigest (.stored stored.entry.m_data) key

def lowerBound (table : List Stored) (key : EntryImpl) : ℕ := (table.takeWhile (isBefore computeDigest key)).length

def emplace (table : List Stored) (new : Stored) : List Stored × ℕ × Bool :=
  let key := EntryImpl.stored new.entry.m_data
  let position := lowerBound computeDigest table key
  match table[position]? with
  | some stored =>
    if EntryImpl.isLess computeDigest key (.stored stored.entry.m_data) then (table.insertIdx position new, new.it, true)
    else (table, stored.it, false)
  | none => (table.insertIdx position new, new.it, true)

/-- `last` in `find` and `erase`; `first` is the lower bound of the name itself. -/
def lastOf (table : List Stored) (namePrefix : Name) : ℕ :=
  if namePrefix.length > 0 then lowerBound computeDigest table (.query (Name.getSuccessor namePrefix)) else table.length

def between (table : List Stored) (first last : ℕ) : List Stored := (table.take last).drop first

end Table

section Find

variable (computeDigest : Data → Vector UInt8 32) (keyLocatorOf : Data → Option Block) (now : ℤ) (name : Name)
  (selectors : Selectors)

def Entry.canSatisfy (entry : Entry) : Bool :=
  matchesData computeDigest keyLocatorOf name selectors entry.m_data && ! (selectors.m_mustBeFresh && entry.isStale now)

def findLeftmost (entries : List Stored) : Option ℕ :=
  (entries.find? (fun stored => stored.entry.canSatisfy computeDigest keyLocatorOf now name selectors)).map Stored.it

def findRightmostAmongExact (entries : List Stored) : Option ℕ :=
  (entries.reverse.find? (fun stored => stored.entry.canSatisfy computeDigest keyLocatorOf now name selectors)).map Stored.it

/-- The loop in `findRightmost`; `right` gets less. `none` is where it is undefined: there is
nothing before the first entry of the table, and no way from `first` down to a lesser `right`. -/
def findRightmost (table : List Stored) (first : ℕ) : ℕ → ℕ → Option (Option ℕ)
  | 0, _ => none
  | rounds + 1, right =>
    if right = first then some none
    else if right = 0 then none
    else
      match table[right - 1]? with
      | none => none
      | some prev =>
        if prev.entry.m_data.m_name.length = name.length then
          if first ≤ right then
            some (findRightmostAmongExact computeDigest keyLocatorOf now name selectors (between table first right))
          else none
        else
          let left := lowerBound computeDigest table (.query (prev.entry.m_data.m_name.take (name.length + 1)))
          match findLeftmost computeDigest keyLocatorOf now name selectors (between table left right) with
          | some it => some (some it)
          | none => findRightmost table first rounds left

def find (table : List Stored) : Option (Option ℕ) :=
  let first := lowerBound computeDigest table (.query name)
  let last := lastOf computeDigest table name
  if selectors.m_childSelector = 1 then
    findRightmost computeDigest keyLocatorOf now name selectors table first (last + 1) last
  else some (findLeftmost computeDigest keyLocatorOf now name selectors (between table first last))

end Find

end LeoNdn.ContentStoreTable
