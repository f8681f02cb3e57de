import LeoNdn.InterestSelectors
import LeoNdn.PitTable

/-!
The PIT entries that a Data packet satisfies: they are searched for on the nodes
of its name and of the prefixes of its name.
-/

namespace LeoNdn.DataMatches

open LeoNdn.Tlv LeoNdn.NdnPacket LeoNdn.NameTree LeoNdn.InterestSelectors LeoNdn.PitTable LeoNdn.Runs
open LeoNdn.ForwardingTables (getMaxDepth nteDepth nteName hasDigest)
open LeoNdn.PitPipelines (Interest)

section Trees

variable {κ τ : Type} [DecidableEq κ]

/-- `PrefixMatchImpl`: the selected nodes from a node up; the names of the parents get shorter. -/
def visitUp (tree : Tree κ τ) (pred : NameTree.Entry κ τ → Bool) : ℕ → Option (List κ) → List (NameTree.Entry κ τ)
  | 0, _ => []
  | _, none => []
  | rounds + 1, some name =>
    match tree name with
    | none => []
    | some entry =>
      if pred entry then entry :: visitUp tree pred rounds entry.m_parent else visitUp tree pred rounds entry.m_parent

def findAllMatches (maxDepth : ℕ) (tree : Tree κ τ) (name : List κ) (entrySelector : NameTree.Entry κ τ → Bool) :
    List (NameTree.Entry κ τ) :=
  match findLongestPrefixMatch maxDepth tree name entrySelector with
  | none => []
  | some entry => visitUp tree entrySelector (entry.m_name.length + 1) (some entry.m_name)

end Trees

section Matches

variable (computeDigest : Data → Vector UInt8 32) (keyLocatorOf : Data → Option Block)

def hasPitEntries (nte : NameTree.Entry Component TableEntries) : Bool := nte.tables.m_pitEntries ≠ []

def entryMatches (s : Pit Selectors) (data : Data) (entry : ℕ) : Bool :=
  (s.entries[entry]?).any (fun object =>
    matchesData computeDigest keyLocatorOf object.m_interest.m_name object.m_interest.m_selectors data)

def findAllDataMatches (s : Pit Selectors) (data : Data) : List ℕ :=
  (findAllMatches getMaxDepth s.m_nameTree data.m_name hasPitEntries).flatMap (fun nte =>
    nte.tables.m_pitEntries.filter (entryMatches computeDigest keyLocatorOf s data))

end Matches

section Trees

variable {κ τ : Type} {maxDepth : ℕ} {tree : Tree κ τ} {name : List κ} {pred : NameTree.Entry κ τ → Bool}

theorem dropLast_take_succ {n : ℕ} (hn : n + 1 ≤ name.length) : (name.take (n + 1)).dropLast = name.take n := by
  rw [List.dropLast_eq_take, List.take_take, List.length_take]
  congr 1
  omega

theorem parent_take (hwf : WellFormed maxDepth tree) {n : ℕ} (hn : n + 1 ≤ name.length) {entry : NameTree.Entry κ τ}
    (hentry : tree (name.take (n + 1)) = some entry) :
    entry.m_parent = some (name.take n) ∧ (tree (name.take n)).isSome := by
  have hne : name.take (n + 1) ≠ [] := List.ne_nil_of_length_pos (by rw [List.length_take]; omega)
  have hparent := hwf.parent_eq hentry
  have hsome : (tree (name.take (n + 1)).dropLast).isSome := hwf.parent_isSome (by rw [hentry]; rfl)
  rw [if_neg hne, dropLast_take_succ hn] at hparent
  rw [dropLast_take_succ hn] at hsome
  exact ⟨hparent, hsome⟩

theorem mem_visitUp (hwf : WellFormed maxDepth tree) {n : ℕ} (hn : n ≤ name.length)
    (hsome : (tree (name.take n)).isSome) {entry : NameTree.Entry κ τ} :
    entry ∈ visitUp tree pred (n + 1) (some (name.take n)) ↔
      ∃ i ≤ n, tree (name.take i) = some entry ∧ pred entry = true := by
  induction n with
  | zero =>
    obtain ⟨root, hroot⟩ := Option.isSome_iff_exists.mp hsome
    simp only [visitUp, hroot, Nat.le_zero, exists_eq_left, Option.some.injEq]
    split
    · rename_i hpred
      rw [List.mem_singleton]
      exact ⟨fun h => ⟨h.symm, h ▸ hpred⟩, fun h => h.1.symm⟩
    · rename_i hpred
      simp only [List.not_mem_nil, false_iff]
      rintro ⟨rfl, h⟩
      exact hpred h
  | succ n ih =>
    obtain ⟨first, hfirst⟩ := Option.isSome_iff_exists.mp hsome
    obtain ⟨hparent, hsome'⟩ := parent_take hwf hn hfirst
    have hrest := ih (by omega) hsome'
    have hsplit : (∃ i ≤ n + 1, tree (name.take i) = some entry ∧ pred entry = true) ↔
        (entry = first ∧ pred first = true) ∨ ∃ i ≤ n, tree (name.take i) = some entry ∧ pred entry = true := by
      constructor
      · rintro ⟨i, hi, hentry, hpred⟩
        rcases Nat.lt_or_ge n i with hlt | hge
        · obtain rfl : i = n + 1 := by omega
          rw [hfirst] at hentry
          obtain rfl := Option.some.inj hentry
          exact Or.inl ⟨rfl, hpred⟩
        · exact Or.inr ⟨i, hge, hentry, hpred⟩
      · rintro (⟨rfl, hpred⟩ | ⟨i, hi, hentry, hpred⟩)
        · exact ⟨n + 1, Nat.le_refl _, hfirst, hpred⟩
        · exact ⟨i, by omega, hentry, hpred⟩
    rw [hsplit, visitUp, hfirst]
    dsimp only
    rw [hparent, ← hrest]
    split
    · rename_i hpred
      rw [List.mem_cons, and_iff_left hpred]
    · rename_i hpred
      rw [or_iff_right (fun h => hpred h.2)]

theorem nodup_visitUp (hwf : WellFormed maxDepth tree) {n : ℕ} (hn : n ≤ name.length)
    (hsome : (tree (name.take n)).isSome) :
    ((visitUp tree pred (n + 1) (some (name.take n))).map NameTree.Entry.m_name).Nodup := by
  induction n with
  | zero =>
    obtain ⟨root, hroot⟩ := Option.isSome_iff_exists.mp hsome
    simp only [visitUp, hroot]
    split
    · exact List.nodup_singleton _
    · exact List.nodup_nil
  | succ n ih =>
    obtain ⟨first, hfirst⟩ := Option.isSome_iff_exists.mp hsome
    obtain ⟨hparent, hsome'⟩ := parent_take hwf hn hfirst
    rw [visitUp, hfirst]
    dsimp only
    rw [hparent]
    split
    · rw [List.map_cons, List.nodup_cons]
      refine ⟨fun hmem => ?_, ih (by omega) hsome'⟩
      obtain ⟨entry, hentry, heq⟩ := List.mem_map.mp hmem
      obtain ⟨i, hi, htree, -⟩ := (mem_visitUp hwf (by omega) hsome').mp hentry
      rw [hwf.name_eq htree, hwf.name_eq hfirst] at heq
      have hlength := congrArg List.length heq
      rw [List.length_take, List.length_take] at hlength
      omega
    · exact ih (by omega) hsome'

theorem findLongestFrom_eq_none {n : ℕ} : findLongestFrom tree name pred n = none ↔
    ∀ i ≤ n, (tree (name.take i)).filter pred = none := by
  induction n with
  | zero =>
    rw [findLongestFrom]
    constructor
    · intro h i hi
      rw [Nat.le_zero.mp hi]
      exact h
    · exact fun h => h 0 (Nat.le_refl 0)
  | succ n ih =>
    rw [findLongestFrom]
    cases hfilter : (tree (name.take (n + 1))).filter pred with
    | some entry =>
      simp only [reduceCtorEq, false_iff]
      intro h
      rw [h (n + 1) (Nat.le_refl _)] at hfilter
      cases hfilter
    | none =>
      dsimp only
      rw [ih]
      constructor
      · intro h i hi
        rcases Nat.lt_or_ge n i with hlt | hge
        · rw [show i = n + 1 by omega]
          exact hfilter
        · exact h i hge
      · exact fun h i hi => h i (by omega)

theorem findAllMatches_spec (hwf : WellFormed maxDepth tree) (name : List κ) (pred : NameTree.Entry κ τ → Bool) :
    (∀ entry, entry ∈ findAllMatches maxDepth tree name pred ↔
      ∃ i ≤ min name.length maxDepth, tree (name.take i) = some entry ∧ pred entry = true) ∧
      ((findAllMatches maxDepth tree name pred).map NameTree.Entry.m_name).Nodup := by
  unfold findAllMatches findLongestPrefixMatch
  cases hfind : findLongestFrom tree name pred (min name.length maxDepth) with
  | none =>
    refine ⟨fun entry => ?_, List.nodup_nil⟩
    simp only [List.not_mem_nil, false_iff]
    rintro ⟨i, hi, hentry, hpred⟩
    have hnone := findLongestFrom_eq_none.mp hfind i hi
    rw [hentry, Option.filter_some, hpred] at hnone
    cases hnone
  | some longest =>
    obtain ⟨i, hi, hlongest, -, hlonger⟩ := findLongestFrom_eq_some.mp hfind
    have hi' : i ≤ name.length := by omega
    have hsome : (tree (name.take i)).isSome := by rw [hlongest]; rfl
    have hlength : longest.m_name.length = i := by
      rw [hwf.name_eq hlongest, List.length_take]
      omega
    dsimp only
    rw [hlength, hwf.name_eq hlongest]
    refine ⟨fun entry => ?_, nodup_visitUp hwf hi' hsome⟩
    rw [mem_visitUp hwf hi' hsome]
    constructor
    · rintro ⟨j, hj, hentry, hpred⟩
      exact ⟨j, by omega, hentry, hpred⟩
    · rintro ⟨j, hj, hentry, hpred⟩
      refine ⟨j, ?_, hentry, hpred⟩
      by_contra hlt
      have hnone := hlonger j (by omega) hj
      rw [hentry, Option.filter_some, hpred] at hnone
      cases hnone

end Trees

section Names

variable {computeDigest : Data → Vector UInt8 32} {keyLocatorOf : Data → Option Block} {name : Name} {data : Data}

def ValidName (name : Name) : Prop := ∀ component ∈ name, Component.ensureValid component = .ok component

theorem equals_iff {component other : Component} (hvalid : other.type ≠ 4294967295) :
    Component.equals component other = true ↔ component = other := by
  obtain ⟨type, value⟩ := component
  obtain ⟨type', value'⟩ := other
  simp only [Component.equals, Bool.and_eq_true, Bool.or_eq_true, decide_eq_true_eq, Block.mk.injEq]
  constructor
  · rintro ⟨⟨rfl, -⟩, hvalue⟩
    exact ⟨rfl, hvalue.resolve_left hvalid⟩
  · rintro ⟨rfl, rfl⟩
    exact ⟨⟨rfl, rfl⟩, Or.inr rfl⟩

theorem type_of_valid (hvalid : ValidName name) {component : Component} (h : component ∈ name) :
    component.type ≠ 4294967295 := by
  have hok := hvalid component h
  unfold Component.ensureValid at hok
  split at hok
  · cases hok
  · omega

theorem all_equals_iff {name other : Name} (hlength : name.length ≤ other.length)
    (hvalid : ∀ component ∈ other, component.type ≠ 4294967295) :
    (name.zip other).all (fun e => Component.equals e.1 e.2) = true ↔ name = other.take name.length := by
  induction name generalizing other with
  | nil => simp
  | cons component name ih =>
    cases other with
    | nil => simp at hlength
    | cons component' other =>
      rw [List.zip_cons_cons, List.all_cons, Bool.and_eq_true, List.length_cons, List.take_succ_cons, List.cons.injEq,
        equals_iff (hvalid component' List.mem_cons_self),
        ih (by simpa using hlength) fun c hc => hvalid c (List.mem_cons_of_mem _ hc)]

theorem name_of_matches (hvalid : ValidName data.m_name) {selectors : Selectors}
    (hmatches : matchesData computeDigest keyLocatorOf name selectors data = true) :
    (hasDigest name = true ∧ name = getFullName computeDigest data) ∨ name <+: data.m_name := by
  simp only [matchesData, matchesSuffix, matchesPrefix, Bool.and_eq_true, decide_eq_true_eq] at hmatches
  obtain ⟨⟨⟨⟨hmin, -⟩, hprefix⟩, -⟩, -⟩ := hmatches
  have hfull : (getFullName computeDigest data).length = data.m_name.length + 1 := by
    rw [getFullName, List.length_append, List.length_singleton]
  rw [hfull] at hprefix
  split at hprefix
  · rename_i hlength
    obtain ⟨hdigest, hequals⟩ := Bool.and_eq_true_iff.mp hprefix
    have htypes : ∀ component ∈ getFullName computeDigest data, component.type ≠ 4294967295 := by
      intro component hmem
      rcases List.mem_append.mp hmem with hmem | hmem
      · exact type_of_valid hvalid hmem
      · rw [List.mem_singleton.mp hmem]
        exact (by decide : (1 : ℕ) ≠ 4294967295)
    have htake := (all_equals_iff (by omega) htypes).mp (Bool.and_eq_true_iff.mp hequals).2
    rw [List.take_of_length_le (by omega)] at htake
    exact Or.inl ⟨hdigest, htake⟩
  · rename_i hlength
    have hle : name.length ≤ data.m_name.length := by omega
    have htake := (all_equals_iff hle fun component hmem => type_of_valid hvalid hmem).mp
      (Bool.and_eq_true_iff.mp hprefix).2
    exact Or.inr (List.prefix_iff_eq_take.mpr htake)

theorem nteName_of_matches (hvalid : ValidName data.m_name) {selectors : Selectors}
    (hmatches : matchesData computeDigest keyLocatorOf name selectors data = true) :
    ∃ i ≤ min data.m_name.length getMaxDepth, nteName name = data.m_name.take i := by
  rcases name_of_matches hvalid hmatches with ⟨hhas, hname⟩ | hprefix
  · -- the name ends with the digest, which the entry is attached above
    have hlength : name.length = data.m_name.length + 1 := by
      rw [hname, getFullName, List.length_append, List.length_singleton]
    have hdepth : nteDepth name = min data.m_name.length getMaxDepth := by
      rw [nteDepth, hhas, if_pos rfl]
      omega
    refine ⟨min data.m_name.length getMaxDepth, Nat.le_refl _, ?_⟩
    rw [nteName, hdepth]
    conv_lhs => rw [hname, getFullName]
    rw [List.take_append_of_le_length (Nat.min_le_left _ _)]
  · have hle := hprefix.length_le
    have hdepth : nteDepth name ≤ min name.length getMaxDepth :=
      Nat.le_min.mpr ⟨ForwardingTables.nteDepth_le_length name, Nat.min_le_right _ _⟩
    refine ⟨nteDepth name, by omega, (congrArg (List.take (nteDepth name)) (List.prefix_iff_eq_take.mp hprefix)).trans ?_⟩
    rw [List.take_take, Nat.min_eq_left (ForwardingTables.nteDepth_le_length name)]

end Names

section Matches

variable {computeDigest : Data → Vector UInt8 32} {keyLocatorOf : Data → Option Block} {wireEncode : Selectors → Block}
  {s : Pit Selectors} {data : Data}

theorem mem_findAllDataMatches (h : Linked wireEncode s) (hvalid : ValidName data.m_name) (entry : ℕ) :
    entry ∈ findAllDataMatches computeDigest keyLocatorOf s data ↔
      InTree s entry ∧ entryMatches computeDigest keyLocatorOf s data entry = true := by
  rw [findAllDataMatches, List.mem_flatMap]
  constructor
  · rintro ⟨nte, hnte, hmem⟩
    obtain ⟨hmem, hmatches⟩ := List.mem_filter.mp hmem
    obtain ⟨i, -, htree, -⟩ := ((findAllMatches_spec h.wellFormed _ _).1 nte).mp hnte
    exact ⟨⟨_, nte, htree, hmem⟩, hmatches⟩
  · rintro ⟨⟨name, nte, htree, hmem⟩, hmatches⟩
    obtain ⟨object, hobject, hsome⟩ := (inTree_iff h entry).mp ⟨name, nte, htree, hmem⟩
    have hat : entry ∈ pitEntriesAt s name := by
      rw [pitEntriesAt, tablesAt, htree]
      exact hmem
    obtain ⟨object', hobject', hname⟩ := (h.mem_iff name entry).mp hat
    obtain rfl := Option.some.inj (hobject.symm.trans hobject')
    have hmatches' := hmatches
    rw [entryMatches, hobject, Option.any_some] at hmatches'
    obtain ⟨i, hi, hnte⟩ := nteName_of_matches hvalid hmatches'
    rw [h.placed hobject hname, hnte] at htree
    refine ⟨nte, ((findAllMatches_spec h.wellFormed _ _).1 nte).mpr ⟨i, hi, htree, ?_⟩, List.mem_filter.mpr ⟨hmem, hmatches⟩⟩
    exact decide_eq_true (List.ne_nil_of_mem hmem)

theorem nodup_findAllDataMatches (h : Linked wireEncode s) :
    (findAllDataMatches computeDigest keyLocatorOf s data).Nodup := by
  obtain ⟨hmem, hnodup⟩ := findAllMatches_spec h.wellFormed data.m_name hasPitEntries
  have hat : ∀ {nte}, nte ∈ findAllMatches getMaxDepth s.m_nameTree data.m_name hasPitEntries →
      nte.tables.m_pitEntries = pitEntriesAt s nte.m_name := by
    intro nte hnte
    obtain ⟨i, -, htree, -⟩ := (hmem nte).mp hnte
    rw [pitEntriesAt, tablesAt, h.wellFormed.name_eq htree, htree]
    rfl
  refine List.nodup_flatMap.mpr ⟨fun nte hnte => ?_, ?_⟩
  · rw [hat hnte]
    exact (h.nodup nte.m_name).filter _
  · refine (List.pairwise_map.mp hnodup).imp_of_mem fun {first second} hfirst hsecond hne => ?_
    rw [Function.onFun, List.disjoint_left]
    intro entry hentry hentry'
    have hin := (h.mem_iff _ _).mp (hat hfirst ▸ List.mem_of_mem_filter hentry)
    have hin' := (h.mem_iff _ _).mp (hat hsecond ▸ List.mem_of_mem_filter hentry')
    obtain ⟨object, hobject, hname⟩ := hin
    obtain ⟨object', hobject', hname'⟩ := hin'
    obtain rfl := Option.some.inj (hobject.symm.trans hobject')
    exact hne (Option.some.inj (hname.symm.trans hname'))

theorem findAllDataMatches_complete (wireEncode : Selectors → Block) (computeDigest : Data → Vector UInt8 32)
    (keyLocatorOf : Data → Option Block) (hrun : Calls wireEncode (fun s c => c.Allowed s) initial s) (data : Data)
    (hvalid : ValidName data.m_name) :
    (findAllDataMatches computeDigest keyLocatorOf s data).Nodup ∧
      ∀ entry, entry ∈ findAllDataMatches computeDigest keyLocatorOf s data ↔
        InTree s entry ∧ ∃ object, s.entries[entry]? = some object ∧
          matchesData computeDigest keyLocatorOf object.m_interest.m_name object.m_interest.m_selectors data = true := by
  have hlinked := linked_run hrun linked_initial
  refine ⟨nodup_findAllDataMatches hlinked, fun entry => ?_⟩
  rw [mem_findAllDataMatches hlinked hvalid, entryMatches, Option.any_eq_true]

def aliceSelectors : Selectors := ⟨-1, 1, ⟨.None, none⟩, ⟨[]⟩, 0, false⟩

def digestInterest : Interest Selectors := ⟨[⟨8, [97]⟩, ⟨1, List.replicate 32 0⟩], aliceSelectors, 7, 4000, [], none⟩

def aliceData : Data := ⟨[⟨8, [97]⟩], ⟨0, 0, none, []⟩, ⟨21, []⟩, none, none⟩

theorem findAllDataMatches_complete_digest :
    0 ∈ findAllDataMatches (fun _ => Vector.replicate 32 0) (fun _ => none)
      (call (fun _ => ⟨9, []⟩) initial (.insert digestInterest)) aliceData := by
  have hnone : ∀ entry, ¬ Holds (fun _ : Selectors => ⟨9, []⟩) initial entry digestInterest := by
    rintro entry ⟨object, hobject, -⟩
    cases hobject
  have hcomplete := findAllDataMatches_complete (fun _ => ⟨9, []⟩) (fun _ => Vector.replicate 32 0) (fun _ => none)
    (Run.refl.step (by exact trivial) (Eq.refl (some (call (fun _ => ⟨9, []⟩) initial (.insert digestInterest)))))
    aliceData (fun component hmem => by
      rw [List.mem_singleton.mp hmem]
      rfl)
  rw [hcomplete.2, call, findOrInsert_new linked_initial hnone]
  exact ⟨(inTree_iff (linked_inserted linked_initial hnone) 0).mpr ⟨_, rfl, rfl⟩, _, rfl, by decide⟩

end Matches

end LeoNdn.DataMatches
