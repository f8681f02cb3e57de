import LeoNdn.NewNextHop

/-!
The FIB entry that a strategy finds for an Interest: that of the forwarding hint
of the Interest that the PIT entry was made of, or of its name.
-/

namespace LeoNdn.ForwardingHints

open LeoNdn.NdnPacket LeoNdn.NameTree LeoNdn.NameTreeIterator LeoNdn.ForwardingTables LeoNdn.NewNextHop

variable {σ : Type}

def s_emptyEntry : Fib.Entry := ⟨[], []⟩

def hasNextHops (fibEntry : Fib.Entry) : Bool := fibEntry.m_nextHops ≠ []

/-- `Fib::findLongestPrefixMatch` of a delegation. -/
def delegationEntry (nt : NameTree σ) (del : Name) :
    Fib.Entry := (findLongestPrefixMatchOfName nt del).getD s_emptyEntry

/-- The loop over the delegations, with the FIB entry of the last one. -/
def lookupDelegations (nt : NameTree σ) : List Name → Fib.Entry → Fib.Entry
  | [], fibEntry => fibEntry
  | del :: fh, _ =>
    if hasNextHops (delegationEntry nt del) then delegationEntry nt del else lookupDelegations nt fh (delegationEntry nt del)

def lookupFib (nt : NameTree σ) (pitEntry : PitEntry σ) : Fib.Entry :=
  if pitEntry.m_forwardingHint = [] then (findLongestPrefixMatch nt pitEntry).getD s_emptyEntry
  else lookupDelegations nt pitEntry.m_forwardingHint s_emptyEntry

def isInProducerRegion (regions : List Name) (forwardingHint : List Name) : Bool :=
  regions.any (fun regionName => forwardingHint.any (fun del => Name.isPrefixOf del regionName))

/-- The hint is stripped in the region of the producer. -/
def stripForwardingHint (regions : List Name) (interest : PitEntry σ) : PitEntry σ :=
  if interest.m_forwardingHint ≠ [] ∧ isInProducerRegion regions interest.m_forwardingHint = true then
    { interest with m_forwardingHint := [] }
  else interest

/-- The tables and the PIT entry that `onIncomingInterest` dispatches with. -/
def insertInterest [DecidableEq σ] (regions : List Name) (nt : NameTree σ) (interest : PitEntry σ) :
    NameTree σ × Option (PitEntry σ) :=
  let inserted := findOrInsert nt (stripForwardingHint regions interest) true
  (inserted.1, inserted.2.1)

/-- The FIB entry that the strategy finds for an incoming Interest. -/
def fibEntryUsed [DecidableEq σ] (regions : List Name) (nt : NameTree σ) (interest : PitEntry σ) : Option Fib.Entry :=
  (insertInterest regions nt interest).2.map (lookupFib (insertInterest regions nt interest).1)

/-- The FIB entry of the hint that an Interest has itself, or of its name. -/
def ownFibEntry (nt : NameTree σ) (interest : PitEntry σ) : Fib.Entry :=
  if interest.m_forwardingHint = [] then (findLongestPrefixMatchOfName nt interest.m_name).getD s_emptyEntry
  else lookupDelegations nt interest.m_forwardingHint s_emptyEntry

/-- The name that the lookup of an Interest comes down to: its own without a
hint, else the first delegation with a next hop, else the last one. -/
def lookupName (nt : NameTree σ) (interest : PitEntry σ) : Name :=
  if interest.m_forwardingHint = [] then interest.m_name
  else (interest.m_forwardingHint.find? (fun del => hasNextHops (delegationEntry nt del))).getD
    (interest.m_forwardingHint.getLast?.getD [])

def SameLongestPrefix (nt : NameTree σ) (name name' : Name) : Prop :=
  ∀ namePrefix, IsLongestPrefix nt name namePrefix ↔ IsLongestPrefix nt name' namePrefix

section Lookups

variable {nt : NameTree σ} {name name' : Name} {interest : PitEntry σ}

theorem lookupDelegations_eq (fh : List Name) (fibEntry : Fib.Entry) : lookupDelegations nt fh fibEntry =
    if fh = [] then fibEntry
    else delegationEntry nt ((fh.find? (fun del => hasNextHops (delegationEntry nt del))).getD (fh.getLast?.getD [])) := by
  induction fh generalizing fibEntry with
  | nil => rfl
  | cons del fh ih =>
    rw [lookupDelegations, ih, if_neg (List.cons_ne_nil del fh), List.find?_cons]
    split
    · rename_i hnext
      rw [hnext]
      rfl
    · rename_i hnext
      rw [Bool.not_eq_true] at hnext
      rw [hnext]
      cases fh with
      | nil => rfl
      | cons next fh => rw [if_neg (List.cons_ne_nil next fh), List.getLast?_cons_cons]

theorem ownFibEntry_eq (nt : NameTree σ) (interest : PitEntry σ) :
    ownFibEntry nt interest = delegationEntry nt (lookupName nt interest) := by
  unfold ownFibEntry lookupName
  split
  · rfl
  · rename_i hhint
    rw [lookupDelegations_eq, if_neg hhint]

theorem delegationEntry_of_longest (h : Attached nt) {namePrefix : Name}
    (hlongest : IsLongestPrefix nt name namePrefix) :
    (delegationEntry nt name).getPrefix = namePrefix ∧
      (tablesOf nt namePrefix).m_fibEntry = some (delegationEntry nt name) := by
  obtain ⟨fibEntry, hentry⟩ := Option.isSome_iff_exists.mp hlongest.2.1
  obtain rfl := (h.tables namePrefix).fib fibEntry hentry
  rw [delegationEntry, (findLongestPrefixMatchOfName_iff h).mpr ⟨hlongest, hentry⟩]
  exact ⟨rfl, hentry⟩

theorem delegationEntry_of_none (h : Attached nt) (hnone : ∀ namePrefix, ¬ IsLongestPrefix nt name namePrefix) :
    delegationEntry nt name = s_emptyEntry := by
  have hlookup : findLongestPrefixMatchOfName nt name = none := by
    rw [Option.eq_none_iff_forall_not_mem]
    intro fibEntry hfound
    exact hnone _ ((findLongestPrefixMatchOfName_iff h).mp hfound).1
  rw [delegationEntry, hlookup]
  rfl

theorem delegationEntry_eq_iff (h : Attached nt) :
    delegationEntry nt name = delegationEntry nt name' ↔ SameLongestPrefix nt name name' := by
  have hsame : ∀ {name name' namePrefix}, delegationEntry nt name = delegationEntry nt name' →
      IsLongestPrefix nt name namePrefix → IsLongestPrefix nt name' namePrefix := by
    intro name name' namePrefix heq hlongest
    by_cases hsome : ∃ other, IsLongestPrefix nt name' other
    · obtain ⟨other, hother⟩ := hsome
      have hprefix := (delegationEntry_of_longest h hlongest).1
      rw [heq, (delegationEntry_of_longest h hother).1] at hprefix
      rwa [← hprefix]
    · -- the root has an entry then, which is a prefix of the other name as well
      have hnone := delegationEntry_of_none h (not_exists.mp hsome)
      have hprefix := (delegationEntry_of_longest h hlongest).1
      rw [heq, hnone] at hprefix
      have hroot : hasFib nt [] = true := by
        have hfib := hlongest.2.1
        rwa [← hprefix] at hfib
      exact absurd (LongestPrefixes.exists_isLongest hroot name') hsome
  constructor
  · exact fun heq namePrefix => ⟨hsame heq, hsame heq.symm⟩
  · intro hboth
    by_cases hsome : ∃ namePrefix, IsLongestPrefix nt name namePrefix
    · obtain ⟨namePrefix, hlongest⟩ := hsome
      have hentry := (delegationEntry_of_longest h hlongest).2
      have hentry' := (delegationEntry_of_longest h ((hboth namePrefix).mp hlongest)).2
      rw [hentry] at hentry'
      exact Option.some_inj.mp hentry'
    · have hnone := not_exists.mp hsome
      rw [delegationEntry_of_none h hnone,
        delegationEntry_of_none h fun namePrefix hlongest => hnone namePrefix ((hboth namePrefix).mpr hlongest)]

theorem delegationEntry_congr {nt' : NameTree σ} (h : Attached nt) (h' : Attached nt')
    (hfib : ∀ namePrefix, (tablesOf nt' namePrefix).m_fibEntry = (tablesOf nt namePrefix).m_fibEntry) :
    delegationEntry nt' = delegationEntry nt := by
  have hhas : ∀ namePrefix, hasFib nt' namePrefix = hasFib nt namePrefix := by
    intro namePrefix
    rw [hasFib, hasFib, hfib]
  funext name
  unfold delegationEntry
  apply congrArg (fun fibEntry => Option.getD fibEntry s_emptyEntry)
  apply Option.ext
  intro fibEntry
  rw [findLongestPrefixMatchOfName_iff h', findLongestPrefixMatchOfName_iff h, hfib]
  unfold IsLongestPrefix
  simp only [hhas]

end Lookups

section Incoming

variable [DecidableEq σ] {nt : NameTree σ} {interest pitEntry : PitEntry σ}

theorem fib_findOrInsert (nt : NameTree σ) (interest : PitEntry σ) (namePrefix : Name) :
    (tablesOf (findOrInsert nt interest true).1 namePrefix).m_fibEntry = (tablesOf nt namePrefix).m_fibEntry := by
  unfold findOrInsert
  simp only [if_true]
  split
  · rw [tablesOf_lookup]
  · dsimp only
    have hsome := lookup_isSome_self nt interest.m_name (nteDepth interest.m_name)
    rw [tablesOf, setTables, nteName, setTables_tablesAt hsome]
    split
    · rename_i heq
      rw [heq]
      exact congrArg (fun tables => (tables (nteName interest.m_name)).m_fibEntry)
        (tablesOf_lookup nt interest.m_name (nteDepth interest.m_name))
    · exact congrArg (fun tables => (tables namePrefix).m_fibEntry)
        (tablesOf_lookup nt interest.m_name (nteDepth interest.m_name))

theorem findOrInsert_spec (nt : NameTree σ) (interest : PitEntry σ) : ∃ pitEntry,
    (findOrInsert nt interest true).2.1 = some pitEntry ∧ InPit (findOrInsert nt interest true).1 pitEntry ∧
      pitEntry.key = interest.key ∧
      (InPit nt pitEntry ∨ pitEntry = interest ∧ ∀ first, InPit nt first → first.key ≠ interest.key) := by
  unfold findOrInsert
  simp only [if_true]
  rw [tablesOf_lookup]
  cases hfind : (tablesOf nt (nteName interest.m_name)).m_pitEntries.find? (fun entry => entry.canMatch interest) with
  | some pitEntry =>
    have hmatch : pitEntry.canMatch interest = true := by simpa using List.find?_some hfind
    have hkey := canMatch_iff.mp hmatch
    have hname : pitEntry.m_name = interest.m_name := congrArg Prod.fst hkey
    have hin : InPit nt pitEntry := by
      rw [InPit, hname]
      exact List.mem_of_find?_eq_some hfind
    refine ⟨pitEntry, rfl, ?_, hkey, Or.inl hin⟩
    rw [InPit, tablesOf_lookup]
    exact hin
  | none =>
    refine ⟨interest, rfl, ?_, rfl, Or.inr ⟨rfl, ?_⟩⟩
    · have hsome := lookup_isSome_self nt interest.m_name (nteDepth interest.m_name)
      rw [InPit, tablesOf, setTables, nteName, setTables_tablesAt hsome, if_pos rfl]
      exact List.mem_append_right _ (List.mem_singleton_self interest)
    · intro first hfirst hkey
      have hname : first.m_name = interest.m_name := congrArg Prod.fst hkey
      rw [InPit, hname] at hfirst
      exact List.find?_eq_none.mp hfind first hfirst (canMatch_iff.mpr hkey)

omit [DecidableEq σ] in
theorem inPit_unique (h : Attached nt) {first second : PitEntry σ} (hfirst : InPit nt first) (hsecond : InPit nt second)
    (hkey : first.key = second.key) : first = second := by
  have hname : first.m_name = second.m_name := congrArg Prod.fst hkey
  rw [InPit, hname] at hfirst
  exact List.inj_on_of_nodup_map (h.tables _).nodup hfirst hsecond hkey

/-- The lookup goes by the hint of the Interest that the PIT entry was made of. -/
theorem fibEntryUsed_eq (h : Attached nt) (regions : List Name) (interest : PitEntry σ) : ∃ pitEntry,
    fibEntryUsed regions nt interest = some (ownFibEntry nt pitEntry) ∧
      pitEntry.key = (stripForwardingHint regions interest).key ∧
      (InPit nt pitEntry ∨ pitEntry = stripForwardingHint regions interest ∧
        ∀ first, InPit nt first → first.key ≠ (stripForwardingHint regions interest).key) := by
  obtain ⟨pitEntry, hentry, hin, hkey, hcases⟩ := findOrInsert_spec nt (stripForwardingHint regions interest)
  refine ⟨pitEntry, ?_, hkey, hcases⟩
  have h' := attached_findOrInsert h (stripForwardingHint regions interest) true
  have hsame := delegationEntry_congr h h' (fib_findOrInsert nt (stripForwardingHint regions interest))
  have hlookup : lookupFib (findOrInsert nt (stripForwardingHint regions interest) true).1 pitEntry =
      ownFibEntry (findOrInsert nt (stripForwardingHint regions interest) true).1 pitEntry := by
    rw [lookupFib, findLongestPrefixMatch_eq h' hin]
    rfl
  rw [fibEntryUsed, insertInterest]
  dsimp only
  rw [hentry, Option.map_some, hlookup, ownFibEntry_eq, ownFibEntry_eq]
  unfold lookupName
  rw [hsame]

/-- The FIB entry used is that of the Interest's own hint or name if and only if
the first Interest of the PIT entry comes down to the same prefix of the FIB. -/
theorem fibEntryUsed_own_iff (h : Reachable nt) (regions : List Name) (interest : PitEntry σ) :
    fibEntryUsed regions nt interest = some (ownFibEntry nt (stripForwardingHint regions interest)) ↔
      ∀ first, InPit nt first → first.key = (stripForwardingHint regions interest).key →
        SameLongestPrefix nt (lookupName nt first) (lookupName nt (stripForwardingHint regions interest)) := by
  obtain ⟨pitEntry, hused, hkey, hcases⟩ := fibEntryUsed_eq h.attached regions interest
  rw [hused, Option.some_inj, ownFibEntry_eq, ownFibEntry_eq, delegationEntry_eq_iff h.attached]
  constructor
  · intro hsame first hfirst hfirstKey
    rcases hcases with hin | ⟨-, hnone⟩
    · rw [inPit_unique h.attached hfirst hin (hfirstKey.trans hkey.symm)]
      exact hsame
    · exact absurd hfirstKey (hnone first hfirst)
  · intro hall
    rcases hcases with hin | ⟨rfl, -⟩
    · exact hall pitEntry hin hkey
    · exact fun namePrefix => Iff.rfl

end Incoming

section Example

def a : Component := ⟨8, [97]⟩

def b : Component := ⟨8, [98]⟩

def nextHop : Fib.NextHop := ⟨⟨256, .scopeNonLocal, .pointToPoint⟩, 0, 1⟩

def pendingTables : NameTree Unit :=
  call (call (call NameTree.empty (.insertFib [b])) (.setNextHops [b] [nextHop])) (.findOrInsert ⟨[a], (), []⟩ true)

theorem pendingTables_reachable : Reachable pendingTables := by
  apply Reachable.call
  · apply Reachable.call
    · exact Reachable.call _ Reachable.empty (by simp [Call.Allowed, getMaxDepth])
    · unfold Call.Allowed
      decide
  · simp [Call.Allowed]

/-- The hint of the second Interest is not looked at. -/
theorem fibEntryUsed_ignores_hint :
    ¬ ∀ (nt : NameTree Unit) (regions : List Name) (interest : PitEntry Unit), Reachable nt →
    fibEntryUsed regions nt interest = some (ownFibEntry nt (stripForwardingHint regions interest)) := by
  intro hown
  have hused := hown pendingTables [] ⟨[a], (), [[b]]⟩ pendingTables_reachable
  exact absurd hused (by decide)

/-- An Interest for another name gets the route of its hint. -/
theorem fibEntryUsed_own_other :
    fibEntryUsed [] pendingTables ⟨[b, a], (), [[b]]⟩ = some ⟨[b], [nextHop]⟩ := by
  have hown := (fibEntryUsed_own_iff pendingTables_reachable [] ⟨[b, a], (), [[b]]⟩).mpr ?_
  · rw [hown]
    decide
  · intro first hfirst hkey
    have hname : first.m_name = [b, a] := congrArg Prod.fst hkey
    have hnone : (tablesOf pendingTables (nteName [b, a])).m_pitEntries = [] := by decide
    rw [InPit, hname, hnone] at hfirst
    cases hfirst

end Example

end LeoNdn.ForwardingHints
