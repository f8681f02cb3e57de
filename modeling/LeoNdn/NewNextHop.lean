import LeoNdn.ForwardingTables
import LeoNdn.LongestPrefixes
import LeoNdn.NameTreeIterator

/-!
What the forwarder does about a new next hop: the strategies are told of the
pending Interests under the prefix.
-/

namespace LeoNdn.NewNextHop

open LeoNdn.NdnPacket LeoNdn.NameTree LeoNdn.LongestPrefixes LeoNdn.NameTreeIterator LeoNdn.ForwardingTables

variable {σ : Type}

def hasFibEntry (nte : NameTree.Entry Component (TableEntries σ)) : Bool := nte.tables.m_fibEntry.isSome

def hasStrategyChoiceEntry (nte : NameTree.Entry Component (TableEntries σ)) : Bool :=
  nte.tables.m_strategyChoiceEntry.isSome

/-- `Fib::findLongestPrefixMatch` of a PIT entry; none is the empty entry. -/
def findLongestPrefixMatch (nt : NameTree σ) (pitEntry : PitEntry σ) : Option Fib.Entry :=
  (findLongestPrefixMatchOfPit getMaxDepth nt (nteName pitEntry.m_name) pitEntry.m_name hasFibEntry).bind
    (fun nte => nte.tables.m_fibEntry)

/-- `Fib::findLongestPrefixMatch` of a name. -/
def findLongestPrefixMatchOfName (nt : NameTree σ) (name : Name) : Option Fib.Entry :=
  (NameTree.findLongestPrefixMatch getMaxDepth nt name hasFibEntry).bind (fun nte => nte.tables.m_fibEntry)

def findEffectiveStrategy (nt : NameTree σ) (pitEntry : PitEntry σ) : Option Name :=
  (findLongestPrefixMatchOfPit getMaxDepth nt (nteName pitEntry.m_name) pitEntry.m_name hasStrategyChoiceEntry).bind
    (fun nte => nte.tables.m_strategyChoiceEntry)

/-- A call of the trigger `afterNewNextHop` of a strategy. -/
structure AfterNewNextHop (σ : Type) where
  strategy : Option Name
  nextHop : Fib.NextHop
  pitEntry : PitEntry σ
  deriving DecidableEq

def isAffected (namePrefix : Name) (nte : NameTree.Entry Component (TableEntries σ)) : Bool × Bool :=
  if nte.tables.m_fibEntry.isSome ∧ nte.m_name.length > namePrefix.length then (false, false)
  else (nte.tables.m_pitEntries ≠ [], true)

def trigger (nt : NameTree σ) (nextHop : Fib.NextHop) (pitEntry : PitEntry σ) : AfterNewNextHop σ :=
  ⟨findEffectiveStrategy nt pitEntry, nextHop, pitEntry⟩

def onNewNextHop (rounds : ℕ) (nt : NameTree σ) (namePrefix : Name) (nextHop : Fib.NextHop) :
    Option (List (AfterNewNextHop σ)) := do
  let affectedEntries ← partialEnumerate rounds nt namePrefix (isAffected namePrefix)
  some (affectedEntries.flatMap (fun nte => (tablesOf nt nte).m_pitEntries.map (trigger nt nextHop)))

def InPit (nt : NameTree σ) (pitEntry : PitEntry σ) : Prop :=
  pitEntry ∈ (tablesOf nt (nteName pitEntry.m_name)).m_pitEntries

def hasFib (nt : NameTree σ) (namePrefix : Name) : Bool := (tablesOf nt namePrefix).m_fibEntry.isSome

def IsLongestPrefix (nt : NameTree σ) (name namePrefix : Name) : Prop :=
  namePrefix <+: name ∧ hasFib nt namePrefix ∧
    ∀ namePrefix', namePrefix' <+: name → hasFib nt namePrefix' → namePrefix'.length ≤ namePrefix.length

section Lookup

variable {nt : NameTree σ} {namePrefix : Name}

theorem select_isAffected (h : Attached nt) (name : Name) :
    select nt (isAffected namePrefix) name =
      if (nt name).isSome then
        if hasFib nt name ∧ name.length > namePrefix.length then (false, false)
        else (decide ((tablesOf nt name).m_pitEntries ≠ []), true)
      else (false, false) := by
  cases hentry : nt name with
  | none => simp [select, hentry]
  | some entry =>
    have htables : tablesOf nt name = entry.tables := by
      rw [tablesOf, tablesAt, hentry]
      rfl
    unfold hasFib
    rw [select, hentry, htables]
    simp only [isAffected, h.wellFormed.name_eq hentry, Option.isSome_some, if_true]

theorem mem_affected (h : Attached nt) (hfib : hasFib nt namePrefix) (name : Name) :
    name ∈ subtree nt (isAffected namePrefix) (getMaxDepth + 1) namePrefix ↔
      (tablesOf nt name).m_pitEntries ≠ [] ∧ IsLongestPrefix nt name namePrefix := by
  rw [mem_subtree h.wellFormed (by omega)]
  constructor
  · rintro ⟨hunder, haccepted, hsome, hway⟩
    rw [select_isAffected h, if_pos hsome] at haccepted
    split at haccepted
    · cases haccepted
    · rename_i hnot
      refine ⟨of_decide_eq_true haccepted, hunder, hfib, fun namePrefix' hpre' hfib' => ?_⟩
      by_contra hlt
      rcases Nat.eq_or_lt_of_le hpre'.length_le with heq | hshorter
      · rw [hpre'.eq_of_length heq] at hfib' hlt
        exact hnot ⟨hfib', by omega⟩
      · have hdeclined := hway namePrefix'.length (by omega) hshorter
        rw [take_eq_of_isPrefix hpre', select_isAffected h, if_pos, if_pos ⟨hfib', by omega⟩] at hdeclined
        · cases hdeclined
        · rw [← take_eq_of_isPrefix hpre']
          exact isSome_take h.wellFormed hsome _
  · rintro ⟨hpit, hunder, -, hlongest⟩
    have hsome : (nt name).isSome := isSome_of_tables fun hno => hpit (by rw [hno]; rfl)
    have haccepts : ∀ i, select nt (isAffected namePrefix) (name.take i) =
        (decide ((tablesOf nt (name.take i)).m_pitEntries ≠ []), true) := by
      intro i
      rw [select_isAffected h, if_pos (isSome_take h.wellFormed hsome i), if_neg]
      rintro ⟨hfib', hlonger⟩
      have hle := hlongest _ (List.take_prefix i name) hfib'
      omega
    refine ⟨hunder, ?_, hsome, fun i _ _ => by rw [haccepts]⟩
    have hself := haccepts name.length
    rw [List.take_length] at hself
    rw [hself]
    exact decide_eq_true hpit

theorem isSome_of_hasFib {name : Name} (h : hasFib nt name = true) : (nt name).isSome :=
  isSome_of_tables fun hno => by simp [hasFib, hno, noTables] at h

theorem isSome_of_inPit {pitEntry : PitEntry σ} (h : InPit nt pitEntry) : (nt (nteName pitEntry.m_name)).isSome :=
  isSome_of_tables fun hno => by simp [InPit, hno, noTables] at h

theorem selected_hasFib (name : Name) : Selected nt hasFibEntry name ↔ hasFib nt name = true := by
  rw [Selected, hasFib, tablesOf, tablesAt]
  cases nt name with
  | none => exact Iff.rfl
  | some nte => exact Iff.rfl

theorem isLongestPrefix_iff {name : Name} :
    IsLongest (Selected nt hasFibEntry) name namePrefix ↔ IsLongestPrefix nt name namePrefix :=
  isLongest_congr selected_hasFib

theorem findLongestPrefixMatchOfName_iff (h : Attached nt) {name : Name} {fibEntry : Fib.Entry} :
    findLongestPrefixMatchOfName nt name = some fibEntry ↔
      IsLongestPrefix nt name fibEntry.getPrefix ∧ (tablesOf nt fibEntry.getPrefix).m_fibEntry = some fibEntry := by
  rw [findLongestPrefixMatchOfName, Option.bind_eq_some_iff]
  constructor
  · rintro ⟨nte, hnte, hentry⟩
    obtain ⟨hnode, hlongest⟩ := (findLongestPrefixMatch_iff h.wellFormed).mp hnte
    have hfib : (tablesOf nt nte.m_name).m_fibEntry = some fibEntry := by
      rw [tablesOf, tablesAt, hnode]
      exact hentry
    rw [(h.tables _).fib fibEntry hfib]
    exact ⟨isLongestPrefix_iff.mp hlongest, hfib⟩
  · rintro ⟨hlongest, hentry⟩
    obtain ⟨nte, hnte⟩ := Option.isSome_iff_exists.mp (isSome_of_hasFib hlongest.2.1)
    have hname := h.wellFormed.name_eq hnte
    refine ⟨nte, (findLongestPrefixMatch_iff h.wellFormed).mpr ?_, ?_⟩
    · rw [hname]
      exact ⟨hnte, isLongestPrefix_iff.mpr hlongest⟩
    · rw [tablesOf, tablesAt, hnte] at hentry
      exact hentry

theorem findLongestPrefixMatch_eq (h : Attached nt) {pitEntry : PitEntry σ} (hin : InPit nt pitEntry) :
    findLongestPrefixMatch nt pitEntry = findLongestPrefixMatchOfName nt pitEntry.m_name := by
  have hdepth : nteDepth pitEntry.m_name ≤ min pitEntry.m_name.length getMaxDepth := by
    unfold nteDepth
    omega
  rw [findLongestPrefixMatch, nteName, findLongestPrefixMatchOfPit_eq h.wellFormed hdepth (isSome_of_inPit hin)]
  rfl

theorem lookup_iff (h : Attached nt) {pitEntry : PitEntry σ} (hin : InPit nt pitEntry) :
    (findLongestPrefixMatch nt pitEntry).map Fib.Entry.getPrefix = some namePrefix ↔
      IsLongestPrefix nt pitEntry.m_name namePrefix := by
  rw [findLongestPrefixMatch_eq h hin]
  constructor
  · intro hlookup
    obtain ⟨fibEntry, hfound, rfl⟩ := Option.map_eq_some_iff.mp hlookup
    exact ((findLongestPrefixMatchOfName_iff h).mp hfound).1
  · intro hlongest
    obtain ⟨fibEntry, hentry⟩ := Option.isSome_iff_exists.mp hlongest.2.1
    obtain rfl := (h.tables namePrefix).fib fibEntry hentry
    rw [(findLongestPrefixMatchOfName_iff h).mpr ⟨hlongest, hentry⟩, Option.map_some]

end Lookup

section Calls

variable {nt : NameTree σ} {namePrefix : Name} {nextHop : Fib.NextHop}

/-- The calls of `onNewNextHop`, once the enumeration has its rounds. -/
def affectedCalls (nt : NameTree σ) (namePrefix : Name) (nextHop : Fib.NextHop) : List (AfterNewNextHop σ) :=
  (subtree nt (isAffected namePrefix) (getMaxDepth + 1) namePrefix).flatMap
    (fun nte => (tablesOf nt nte).m_pitEntries.map (trigger nt nextHop))

theorem onNewNextHop_eq (h : Attached nt) (namePrefix : Name) (nextHop : Fib.NextHop) :
    ∃ rounds, ∀ r, rounds ≤ r → onNewNextHop r nt namePrefix nextHop = some (affectedCalls nt namePrefix nextHop) := by
  obtain ⟨rounds, hrounds⟩ := partialEnumerate_eq h.wellFormed (isAffected namePrefix) namePrefix
  refine ⟨rounds, fun r hr => ?_⟩
  rw [onNewNextHop, hrounds r hr]
  rfl

theorem mem_affectedCalls (h : Attached nt) (hfib : hasFib nt namePrefix = true) (c : AfterNewNextHop σ) :
    c ∈ affectedCalls nt namePrefix nextHop ↔ ∃ pitEntry, InPit nt pitEntry ∧
      IsLongestPrefix nt (nteName pitEntry.m_name) namePrefix ∧ c = trigger nt nextHop pitEntry := by
  simp only [affectedCalls, List.mem_flatMap, List.mem_map, mem_affected h hfib]
  constructor
  · rintro ⟨nte, ⟨-, hlongest⟩, pitEntry, hmem, rfl⟩
    have hnte := (h.tables nte).pit pitEntry hmem
    refine ⟨pitEntry, ?_, ?_, rfl⟩
    · rw [InPit, hnte]
      exact hmem
    · rw [hnte]
      exact hlongest
  · rintro ⟨pitEntry, hin, hlongest, rfl⟩
    exact ⟨nteName pitEntry.m_name, ⟨List.ne_nil_of_mem hin, hlongest⟩, pitEntry, hin, rfl⟩

theorem trigger_injective {pitEntry pitEntry' : PitEntry σ}
    (h : trigger nt nextHop pitEntry = trigger nt nextHop pitEntry') : pitEntry = pitEntry' :=
  congrArg AfterNewNextHop.pitEntry h

theorem nodup_affectedCalls (h : Attached nt) : (affectedCalls nt namePrefix nextHop).Nodup := by
  refine List.nodup_flatMap.mpr ⟨fun nte _ => ?_, ?_⟩
  · exact ((h.tables nte).nodup.of_map _).map fun _ _ => trigger_injective
  · refine (nodup_subtree h.wellFormed _ _).imp fun {nte nte'} hne => ?_
    intro c hc hc'
    obtain ⟨pitEntry, hmem, rfl⟩ := List.mem_map.mp hc
    obtain ⟨pitEntry', hmem', heq⟩ := List.mem_map.mp hc'
    obtain rfl := trigger_injective heq
    exact hne (((h.tables nte).pit _ hmem).symm.trans ((h.tables nte').pit _ hmem'))

def Affected (nt : NameTree σ) (namePrefix : Name) (pitEntry : PitEntry σ) : Prop :=
  pitEntry.m_forwardingHint = [] ∧ (findLongestPrefixMatch nt pitEntry).map Fib.Entry.getPrefix = some namePrefix

/-- Each of the pending Interests gets one call if the next hop is for it, and
there are no other calls. -/
def CallsExactly [DecidableEq σ] (nt : NameTree σ) (namePrefix : Name) (nextHop : Fib.NextHop)
    (calls : List (AfterNewNextHop σ)) : Prop :=
  (∀ pitEntry, InPit nt pitEntry → (Affected nt namePrefix pitEntry → calls.count (trigger nt nextHop pitEntry) = 1) ∧
    (¬ Affected nt namePrefix pitEntry → trigger nt nextHop pitEntry ∉ calls)) ∧
  ∀ c ∈ calls, ∃ pitEntry, InPit nt pitEntry ∧ c = trigger nt nextHop pitEntry

theorem prefix_nteName (h : Attached nt) {name namePrefix : Name}
    (hown : ¬ (hasDigest name = true ∧ hasFib nt name = true))
    (hpre : namePrefix <+: name) (hfib : hasFib nt namePrefix = true) : namePrefix <+: nteName name := by
  have hle := h.wellFormed.length_le (isSome_of_hasFib hfib)
  have hle' := hpre.length_le
  have hlength : namePrefix.length ≤ nteDepth name := by
    by_contra hlt
    unfold nteDepth at hlt
    have hdigest : hasDigest name = true := by
      by_contra hno
      rw [if_neg hno] at hlt
      omega
    rw [if_pos hdigest] at hlt
    have heq := hpre.eq_of_length (by omega)
    exact hown ⟨hdigest, heq ▸ hfib⟩
  rw [← take_eq_of_isPrefix hpre]
  exact List.take_prefix_take_left hlength

/-- Only a FIB entry at the whole name, digest and all, makes a difference between
the lookup from the node of a PIT entry and the lookup of its name. -/
theorem isLongestPrefix_nteName (h : Attached nt) {name : Name}
    (hown : ¬ (hasDigest name = true ∧ hasFib nt name = true)) :
    IsLongestPrefix nt (nteName name) namePrefix ↔ IsLongestPrefix nt name namePrefix := by
  have hnte : nteName name <+: name := List.take_prefix _ _
  constructor
  · rintro ⟨hpre, hfib, hlongest⟩
    exact ⟨hpre.trans hnte, hfib, fun namePrefix' hpre' hfib' =>
      hlongest namePrefix' (prefix_nteName h hown hpre' hfib') hfib'⟩
  · rintro ⟨hpre, hfib, hlongest⟩
    exact ⟨prefix_nteName h hown hpre hfib, hfib, fun namePrefix' hpre' hfib' =>
      hlongest namePrefix' (hpre'.trans hnte) hfib'⟩

theorem isLongestPrefix_self {name : Name} (hfib : hasFib nt name = true) :
    IsLongestPrefix nt name namePrefix ↔ namePrefix = name := by
  constructor
  · rintro ⟨hpre, -, hlongest⟩
    have hle := hlongest name List.prefix_rfl hfib
    exact hpre.eq_of_length (le_antisymm hpre.length_le hle)
  · rintro rfl
    exact ⟨List.prefix_rfl, hfib, fun _ hpre' _ => hpre'.length_le⟩

theorem nteName_length_lt (h : Attached nt) {name : Name} (hdigest : hasDigest name = true)
    (hfib : hasFib nt name = true) : (nteName name).length < name.length := by
  have hne : name ≠ [] := by
    rintro rfl
    cases hdigest
  have hpos := List.length_pos_iff.mpr hne
  have hle := h.wellFormed.length_le (isSome_of_hasFib hfib)
  rw [nteName, nteDepth, if_pos hdigest, List.length_take]
  omega

/-- No pending Interest under the FIB entry has a hint or a FIB entry at its own
name that ends in a digest, and the FIB entry is not that of such a name. -/
def OnlyPlainInterests (nt : NameTree σ) (namePrefix : Name) : Prop :=
  ∀ pitEntry, InPit nt pitEntry →
    (IsLongestPrefix nt (nteName pitEntry.m_name) namePrefix →
      pitEntry.m_forwardingHint = [] ∧ ¬ (hasDigest pitEntry.m_name = true ∧ hasFib nt pitEntry.m_name = true)) ∧
    (pitEntry.m_forwardingHint = [] → hasDigest pitEntry.m_name = true → pitEntry.m_name ≠ namePrefix)

theorem affected_iff_of (h : Attached nt) (honly : OnlyPlainInterests nt namePrefix)
    {pitEntry : PitEntry σ} (hin : InPit nt pitEntry) :
    Affected nt namePrefix pitEntry ↔ IsLongestPrefix nt (nteName pitEntry.m_name) namePrefix := by
  rw [Affected, lookup_iff h hin]
  obtain ⟨hunder, hown⟩ := honly pitEntry hin
  constructor
  · rintro ⟨hhint, hlongest⟩
    refine (isLongestPrefix_nteName h ?_).mpr hlongest
    rintro ⟨hdigest, hfib'⟩
    exact hown hhint hdigest ((isLongestPrefix_self hfib').mp hlongest).symm
  · intro hlongest
    obtain ⟨hhint, hno⟩ := hunder hlongest
    exact ⟨hhint, (isLongestPrefix_nteName h hno).mp hlongest⟩

theorem only_of_affected_iff (h : Attached nt) (hfib : hasFib nt namePrefix = true)
    (haffected : ∀ pitEntry, InPit nt pitEntry →
      (Affected nt namePrefix pitEntry ↔ IsLongestPrefix nt (nteName pitEntry.m_name) namePrefix)) :
    OnlyPlainInterests nt namePrefix := by
  intro pitEntry hin
  have hiff := haffected pitEntry hin
  rw [Affected, lookup_iff h hin] at hiff
  refine ⟨fun hunder => ?_, ?_⟩
  · obtain ⟨hhint, hlongest⟩ := hiff.mpr hunder
    refine ⟨hhint, ?_⟩
    rintro ⟨hdigest, hfib'⟩
    have hlt := nteName_length_lt h hdigest hfib'
    have hle := hunder.1.length_le
    rw [(isLongestPrefix_self hfib').mp hlongest] at hle
    omega
  · rintro hhint hdigest rfl
    have hunder := hiff.mp ⟨hhint, (isLongestPrefix_self hfib).mpr rfl⟩
    have hlt := nteName_length_lt h hdigest hfib
    have hle := hunder.1.length_le
    omega

variable [DecidableEq σ]

theorem callsExactly_iff (h : Attached nt) (hfib : hasFib nt namePrefix = true) :
    CallsExactly nt namePrefix nextHop (affectedCalls nt namePrefix nextHop) ↔ OnlyPlainInterests nt namePrefix := by
  have hmem : ∀ pitEntry, InPit nt pitEntry → (trigger nt nextHop pitEntry ∈ affectedCalls nt namePrefix nextHop ↔
      IsLongestPrefix nt (nteName pitEntry.m_name) namePrefix) := by
    intro pitEntry hin
    rw [mem_affectedCalls h hfib]
    constructor
    · rintro ⟨pitEntry', -, hlongest, heq⟩
      rw [trigger_injective heq]
      exact hlongest
    · exact fun hlongest => ⟨pitEntry, hin, hlongest, rfl⟩
  constructor
  · rintro ⟨hcalls, -⟩
    refine only_of_affected_iff h hfib fun pitEntry hin => ?_
    obtain ⟨honce, hnever⟩ := hcalls pitEntry hin
    rw [← hmem pitEntry hin]
    constructor
    · intro haffected
      exact List.count_pos_iff.mp (by rw [honce haffected]; exact Nat.one_pos)
    · intro hcalled
      by_contra hnot
      exact hnever hnot hcalled
  · intro honly
    refine ⟨fun pitEntry hin => ?_, fun c hc => ?_⟩
    · have hiff := affected_iff_of h honly hin
      refine ⟨fun haffected => ?_, fun hnot hcalled => hnot ?_⟩
      · exact List.count_eq_one_of_mem (nodup_affectedCalls h) ((hmem pitEntry hin).mpr (hiff.mp haffected))
      · exact hiff.mpr ((hmem pitEntry hin).mp hcalled)
    · obtain ⟨pitEntry, hin, -, rfl⟩ := (mem_affectedCalls h hfib c).mp hc
      exact ⟨pitEntry, hin, rfl⟩

theorem onNewNextHop_exact_iff (hreach : Reachable nt) (namePrefix : Name) (hfib : hasFib nt namePrefix = true)
    (nextHop : Fib.NextHop) :
    ∃ calls rounds, (∀ r, rounds ≤ r → onNewNextHop r nt namePrefix nextHop = some calls) ∧
      (CallsExactly nt namePrefix nextHop calls ↔ OnlyPlainInterests nt namePrefix) := by
  obtain ⟨rounds, hrounds⟩ := onNewNextHop_eq hreach.attached namePrefix nextHop
  exact ⟨_, rounds, hrounds, callsExactly_iff hreach.attached hfib⟩

end Calls

section Example

def a : Component := ⟨8, [97]⟩

def b : Component := ⟨8, [98]⟩

def hinted : PitEntry Unit := ⟨[a, b], (), [[b]]⟩

def hintedTables : NameTree Unit :=
  call (call (call NameTree.empty (.insertFib [a])) (.insertFib [b])) (.findOrInsert hinted true)

theorem hintedTables_reachable : Reachable hintedTables :=
  .call _ (.call _ (.call _ .empty (by simp [Call.Allowed, getMaxDepth])) (by simp [Call.Allowed, getMaxDepth])) trivial

def nextHop : Fib.NextHop := ⟨⟨256, .scopeNonLocal, .pointToPoint⟩, 0, 1⟩

theorem onNewNextHop_exact_iff_hinted :
    ∃ calls rounds, (∀ r, rounds ≤ r → onNewNextHop r hintedTables [a] nextHop = some calls) ∧
      (CallsExactly hintedTables [a] nextHop calls ↔ OnlyPlainInterests hintedTables [a]) :=
  onNewNextHop_exact_iff hintedTables_reachable [a] (by decide) nextHop

def digest : Component := ⟨1, List.replicate 32 0⟩

def exactInterest : PitEntry Unit := ⟨[a, digest], (), []⟩

def exactTables :
    NameTree Unit := call (call NameTree.empty (.insertFib [a, digest])) (.findOrInsert exactInterest true)

theorem exactTables_reachable : Reachable exactTables :=
  .call _ (.call _ .empty (by simp [Call.Allowed, getMaxDepth])) trivial

/-- The strategy is told of the Interest with a hint when `/a` gets a next hop,
though it is forwarded by `/b`, and is not told of the other Interest when the
entry at its own name gets one. -/
theorem hinted_called_exact_missed :
    (onNewNextHop 5 hintedTables [a] nextHop = some [trigger hintedTables nextHop hinted] ∧
      ¬ CallsExactly hintedTables [a] nextHop [trigger hintedTables nextHop hinted]) ∧
    onNewNextHop 5 exactTables [a, digest] nextHop = some [] ∧ ¬ CallsExactly exactTables [a, digest] nextHop [] := by
  refine ⟨⟨by decide, fun h => ?_⟩, by decide, fun h => ?_⟩
  · have hin : InPit hintedTables hinted := by
      unfold InPit
      decide
    exact (h.1 hinted hin).2 (fun haffected => by simp [Affected, hinted] at haffected) List.mem_cons_self
  · have hin : InPit exactTables exactInterest := by
      unfold InPit
      decide
    have haffected : Affected exactTables [a, digest] exactInterest :=
      ⟨rfl, (lookup_iff exactTables_reachable.attached hin).mpr ((isLongestPrefix_self (by decide)).mpr rfl)⟩
    have honce := (h.1 exactInterest hin).1 haffected
    cases honce

end Example

end LeoNdn.NewNextHop
