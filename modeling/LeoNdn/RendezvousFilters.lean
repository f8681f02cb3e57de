import LeoNdn.KiteRequest
import LeoNdn.TimestampReplies

/-!
The Interest filters of the rendezvous server: which of its handlers an Interest
comes to, and what the handlers take it for.
-/

namespace LeoNdn.RendezvousFilters

open LeoNdn.NdnPacket LeoNdn.KiteProtocol
open LeoNdn.TimestampReplies (TS_COMP)

inductive InterestCallback
  | onKiteRequest
  | onTsRequest
  | onConsumerInterest
  deriving DecidableEq, Repr

structure InterestFilterRecord where
  m_filter : Name
  m_interestCallback : InterestCallback
  deriving DecidableEq, Repr

/-- The filters that `start` sets. The one for timestamps is bound to `onKiteRequest`, and
its last component is made of the text `/ts`. -/
def start (prefixes : List Name) : List InterestFilterRecord :=
  prefixes.flatMap (fun rvPrefix =>
    [⟨rvPrefix ++ [KITE_KEYWORD], .onKiteRequest⟩,
      ⟨rvPrefix ++ [⟨8, [0x2F, 0x74, 0x73]⟩], .onKiteRequest⟩,
      ⟨rvPrefix, .onConsumerInterest⟩])

/-- The filters whose callback is called. -/
def dispatchInterest (m_interestFilterTable : List InterestFilterRecord) (name : Name) : List InterestFilterRecord :=
  m_interestFilterTable.filter (fun filter => Name.isPrefixOf filter.m_filter name)

def calls (prefixes : List Name) (callback : InterestCallback) (name : Name) : ℕ :=
  (dispatchInterest (start prefixes) name).countP (fun filter => filter.m_interestCallback = callback)

/-- In the simulator `onKiteRequest` hands every Interest over. -/
def processed (prefixes : List Name) (name : Name) : ℕ := calls prefixes .onKiteRequest name

def sendTsRequest (rvPrefix : Name) : Interest := ⟨rvPrefix ++ [TS_COMP], true, none⟩

/-- Whether the Interest is taken for a KITE request; the name may have no second component. -/
def onConsumerInterest (name : Name) : Option Bool :=
  name[1]?.map (fun component => Component.equals component KITE_KEYWORD)

def IsKiteRequest (filterPrefix name : Name) : Prop :=
  ∃ component, name[filterPrefix.length]? = some component ∧ Component.equals component KITE_KEYWORD = true

def TsRequestHandled (prefixes : List Name) (rvPrefix : Name) : Prop :=
  0 < calls prefixes .onTsRequest (sendTsRequest rvPrefix).m_name ∧
    processed prefixes (sendTsRequest rvPrefix).m_name = 0

def ConsumerInterestTaken (filterPrefix name : Name) : Prop :=
  ∃ taken, onConsumerInterest name = some taken ∧ (taken = true ↔ IsKiteRequest filterPrefix name)

/-- Every Interest comes to its handler, which takes it for what it is. -/
structure Classifies (prefixes : List Name) : Prop where
  timestamps : ∀ rvPrefix ∈ prefixes, TsRequestHandled prefixes rvPrefix
  requests : ∀ (request : Request) (now : ℤ) (nonce : ℕ) (signer : Name → Component × Component),
    request.m_rvPrefix ∈ prefixes → processed prefixes (KiteRequest.makeInterest request now nonce signer).m_name = 1
  consumers : ∀ filterPrefix ∈ prefixes, ∀ name, Name.isPrefixOf filterPrefix name = true →
    ConsumerInterestTaken filterPrefix name

/-- Prefixes that differ, none of them empty or with the keyword. -/
structure Registered (prefixes : List Name) : Prop where
  distinct : prefixes.Pairwise (fun rvPrefix other => Name.equals rvPrefix other = false)
  nonempty : ∀ rvPrefix ∈ prefixes, rvPrefix ≠ []
  keyword : ∀ rvPrefix ∈ prefixes, ∀ component ∈ rvPrefix, Component.equals component KITE_KEYWORD = false

section Names

theorem equals_keyword {component : Component} : Component.equals component KITE_KEYWORD = true ↔
    component = KITE_KEYWORD := by
  constructor
  · intro h
    obtain ⟨type, value⟩ := component
    simp only [KITE_KEYWORD] at h ⊢
    simp only [Component.equals, Bool.and_eq_true, Bool.or_eq_true, decide_eq_true_eq] at h
    obtain ⟨⟨rfl, -⟩, hvalue⟩ := h
    rcases hvalue with hvalue | hvalue
    · cases hvalue
    · rw [hvalue]
  · rintro rfl
    decide

theorem isPrefixOf_cons (component other : Component) (name rest : Name) :
    Name.isPrefixOf (component :: name) (other :: rest) = (Component.equals component other && Name.isPrefixOf name rest) := by
  simp only [Name.isPrefixOf, List.length_cons, List.zip_cons_cons, List.all_cons, Nat.add_le_add_iff_right]
  exact Bool.and_left_comm ..

theorem isPrefixOf_nil (name : Name) : Name.isPrefixOf [] name = true := by
  simp [Name.isPrefixOf]

theorem not_isPrefixOf_nil (component : Component) (name : Name) : Name.isPrefixOf (component :: name) [] = false := by
  simp [Name.isPrefixOf]

theorem equals_cons (component other : Component) (name rest : Name) :
    Name.equals (component :: name) (other :: rest) = (Component.equals component other && Name.equals name rest) := by
  simp only [Name.equals, List.length_cons, List.zip_cons_cons, List.all_cons, Nat.add_right_cancel_iff]
  exact Bool.and_left_comm ..

theorem equals_comm (component other : Component) : Component.equals component other = Component.equals other component := by
  rw [Bool.eq_iff_iff]
  simp only [Component.equals, Bool.and_eq_true, Bool.or_eq_true, decide_eq_true_eq]
  constructor
  · rintro ⟨⟨htype, hlength⟩, hvalue⟩
    exact ⟨⟨htype.symm, hlength.symm⟩, hvalue.imp (fun h => htype ▸ h) Eq.symm⟩
  · rintro ⟨⟨htype, hlength⟩, hvalue⟩
    exact ⟨⟨htype.symm, hlength.symm⟩, hvalue.imp (fun h => htype ▸ h) Eq.symm⟩

theorem name_equals_comm (name other : Name) : Name.equals name other = Name.equals other name := by
  induction name generalizing other with
  | nil => cases other <;> rfl
  | cons component name ih =>
    cases other with
    | nil => rfl
    | cons component' other => rw [equals_cons, equals_cons, equals_comm, ih]

def HasNoKeyword (name : Name) : Prop := ∀ component ∈ name, Component.equals component KITE_KEYWORD = false

theorem HasNoKeyword.tail {component : Component} {name : Name} (h : HasNoKeyword (component :: name)) :
    HasNoKeyword name := fun other hmem => h other (List.mem_cons_of_mem _ hmem)

theorem isPrefixOf_keyword {filterPrefix rvPrefix : Name} (rest : Name) (hfilter : HasNoKeyword filterPrefix)
    (hrv : HasNoKeyword rvPrefix) : Name.isPrefixOf (filterPrefix ++ [KITE_KEYWORD]) (rvPrefix ++ KITE_KEYWORD :: rest) =
      Name.equals filterPrefix rvPrefix := by
  induction filterPrefix generalizing rvPrefix with
  | nil =>
    cases rvPrefix with
    | nil =>
      rw [List.nil_append, List.nil_append, isPrefixOf_cons, isPrefixOf_nil]
      rfl
    | cons other rvPrefix =>
      rw [List.nil_append, List.cons_append, isPrefixOf_cons, equals_comm, hrv other List.mem_cons_self]
      rfl
  | cons component filterPrefix ih =>
    cases rvPrefix with
    | nil =>
      rw [List.cons_append, List.nil_append, isPrefixOf_cons, hfilter component List.mem_cons_self]
      rfl
    | cons other rvPrefix =>
      rw [List.cons_append, List.cons_append, isPrefixOf_cons, ih hfilter.tail hrv.tail, equals_cons]

theorem isPrefixOf_before_keyword {filterPrefix rvPrefix : Name} {last : Component} (rest : Name)
    (hfilter : HasNoKeyword filterPrefix) (hlast : Component.equals last KITE_KEYWORD = false) :
    Name.isPrefixOf (filterPrefix ++ [last]) (rvPrefix ++ KITE_KEYWORD :: rest) =
      Name.isPrefixOf (filterPrefix ++ [last]) rvPrefix := by
  induction filterPrefix generalizing rvPrefix with
  | nil =>
    cases rvPrefix with
    | nil =>
      rw [List.nil_append, List.nil_append, isPrefixOf_cons, hlast, not_isPrefixOf_nil]
      rfl
    | cons other rvPrefix =>
      rw [List.nil_append, List.cons_append, isPrefixOf_cons, isPrefixOf_cons, isPrefixOf_nil, isPrefixOf_nil]
  | cons component filterPrefix ih =>
    cases rvPrefix with
    | nil =>
      rw [List.cons_append, List.nil_append, isPrefixOf_cons, hfilter component List.mem_cons_self, not_isPrefixOf_nil]
      rfl
    | cons other rvPrefix => rw [List.cons_append, List.cons_append, isPrefixOf_cons, isPrefixOf_cons, ih hfilter.tail]

theorem isPrefixOf_getElem {filterPrefix name : Name} (h : Name.isPrefixOf filterPrefix name = true) {i : ℕ}
    {component : Component} (hcomponent : filterPrefix[i]? = some component) :
    ∃ other, name[i]? = some other ∧ Component.equals component other = true := by
  induction filterPrefix generalizing name i with
  | nil => cases hcomponent
  | cons first filterPrefix ih =>
    cases name with
    | nil =>
      rw [not_isPrefixOf_nil] at h
      cases h
    | cons other name =>
      rw [isPrefixOf_cons, Bool.and_eq_true] at h
      cases i with
      | zero =>
        obtain rfl := Option.some.inj hcomponent
        exact ⟨other, rfl, h.1⟩
      | succ i => exact ih h.2 hcomponent

end Names

section Filters

theorem start_cons (rvPrefix : Name) (prefixes : List Name) : start (rvPrefix :: prefixes) =
    [⟨rvPrefix ++ [KITE_KEYWORD], .onKiteRequest⟩, ⟨rvPrefix ++ [TS_COMP], .onKiteRequest⟩,
      ⟨rvPrefix, .onConsumerInterest⟩] ++ start prefixes := rfl

theorem calls_onTsRequest (prefixes : List Name) (name : Name) : calls prefixes .onTsRequest name = 0 := by
  rw [calls, List.countP_eq_zero]
  intro filter hfilter
  obtain ⟨rvPrefix, -, hmem⟩ := List.mem_flatMap.mp (List.mem_of_mem_filter hfilter)
  simp only [List.mem_cons, List.not_mem_nil, or_false] at hmem
  rcases hmem with rfl | rfl | rfl <;> simp

theorem processed_eq (prefixes : List Name) (name : Name) : processed prefixes name =
    prefixes.countP (fun rvPrefix => Name.isPrefixOf (rvPrefix ++ [KITE_KEYWORD]) name) +
      prefixes.countP (fun rvPrefix => Name.isPrefixOf (rvPrefix ++ [TS_COMP]) name) := by
  induction prefixes with
  | nil => rfl
  | cons rvPrefix prefixes ih =>
    have hstep : processed (rvPrefix :: prefixes) name =
        (if Name.isPrefixOf (rvPrefix ++ [KITE_KEYWORD]) name then 1 else 0) +
          (if Name.isPrefixOf (rvPrefix ++ [TS_COMP]) name then 1 else 0) + processed prefixes name := by
      simp only [processed, calls, dispatchInterest, start_cons, List.filter_append, List.countP_append]
      congr 1
      simp only [List.filter_cons, List.filter_nil]
      by_cases hkite : Name.isPrefixOf (rvPrefix ++ [KITE_KEYWORD]) name = true <;>
        by_cases hts : Name.isPrefixOf (rvPrefix ++ [TS_COMP]) name = true <;>
        by_cases hconsumer : Name.isPrefixOf rvPrefix name = true <;> simp [hkite, hts, hconsumer]
    rw [hstep, ih, List.countP_cons, List.countP_cons]
    omega

theorem countP_equals {prefixes : List Name} (hdistinct : prefixes.Pairwise (fun rvPrefix other =>
    Name.equals rvPrefix other = false)) {rvPrefix : Name} (hmem : rvPrefix ∈ prefixes) :
    prefixes.countP (fun other => Name.equals other rvPrefix) = 1 := by
  induction prefixes with
  | nil => exact absurd hmem List.not_mem_nil
  | cons first prefixes ih =>
    obtain ⟨hfirst, hrest⟩ := List.pairwise_cons.mp hdistinct
    rw [List.countP_cons]
    rcases List.mem_cons.mp hmem with rfl | hmem
    · have hnone : prefixes.countP (fun other => Name.equals other rvPrefix) = 0 := by
        rw [List.countP_eq_zero]
        intro other hother
        rw [name_equals_comm, hfirst other hother]
        exact Bool.false_ne_true
      rw [hnone, KiteAcknowledgment.name_equals_self]
      rfl
    · rw [ih hrest hmem, hfirst rvPrefix hmem]
      rfl

variable {prefixes : List Name}

theorem processed_makeInterest (h : Registered prefixes) (request : Request) (now : ℤ) (nonce : ℕ)
    (signer : Name → Component × Component) (hmem : request.m_rvPrefix ∈ prefixes) :
    processed prefixes (KiteRequest.makeInterest request now nonce signer).m_name =
      1 + prefixes.countP (fun rvPrefix => Name.isPrefixOf (rvPrefix ++ [TS_COMP]) request.m_rvPrefix) := by
  obtain ⟨signatureInfo, signatureValue, hname⟩ := KiteRequest.makeInterest_name request now nonce signer
  rw [processed_eq, hname, ← countP_equals h.distinct hmem]
  congr 1
  · refine List.countP_congr fun rvPrefix hrv => ?_
    rw [isPrefixOf_keyword _ (h.keyword rvPrefix hrv) (h.keyword _ hmem)]
  · refine List.countP_congr fun rvPrefix hrv => ?_
    rw [isPrefixOf_before_keyword _ (h.keyword rvPrefix hrv) (by decide)]

/-- The condition on the second component, which is read whatever the prefix. -/
theorem consumerInterestTaken_iff {filterPrefix name : Name} (hne : filterPrefix ≠ []) (hkeyword : HasNoKeyword filterPrefix)
    (hmatch : Name.isPrefixOf filterPrefix name = true) : ConsumerInterestTaken filterPrefix name ↔
      if filterPrefix.length = 1 then 1 < name.length else ¬ IsKiteRequest filterPrefix name := by
  unfold ConsumerInterestTaken onConsumerInterest
  split
  · rename_i hone
    constructor
    · rintro ⟨taken, htaken, -⟩
      obtain ⟨component, hcomponent, -⟩ := Option.map_eq_some_iff.mp htaken
      exact (List.getElem?_eq_some_iff.mp hcomponent).1
    · intro hlength
      refine ⟨_, congrArg (Option.map _) (List.getElem?_eq_getElem hlength), ?_⟩
      rw [IsKiteRequest, hone, List.getElem?_eq_getElem hlength]
      constructor
      · exact fun h => ⟨_, rfl, h⟩
      · rintro ⟨component, hcomponent, h⟩
        rw [Option.some.inj hcomponent]
        exact h
  · rename_i hone
    have hlength : 1 < filterPrefix.length := by
      have hpos := List.length_pos_iff.mpr hne
      omega
    obtain ⟨component, hcomponent, hequals⟩ := isPrefixOf_getElem hmatch (List.getElem?_eq_getElem hlength)
    have hnot : Component.equals component KITE_KEYWORD = false := by
      rw [Bool.eq_false_iff]
      intro h
      rw [equals_keyword.mp h, hkeyword _ (List.getElem_mem hlength)] at hequals
      cases hequals
    rw [hcomponent, Option.map_some, hnot]
    simp

end Filters

section Classification

theorem classifies_iff (prefixes : List Name) (h : Registered prefixes) :
    (Classifies prefixes ↔ prefixes = []) ∧
      (∀ rvPrefix ∈ prefixes, ¬ TsRequestHandled prefixes rvPrefix) ∧
      (∀ (request : Request) (now : ℤ) (nonce : ℕ) (signer : Name → Component × Component),
        request.m_rvPrefix ∈ prefixes →
        (processed prefixes (KiteRequest.makeInterest request now nonce signer).m_name = 1 ↔
          ∀ other ∈ prefixes, Name.isPrefixOf (other ++ [TS_COMP]) request.m_rvPrefix = false)) ∧
      (∀ filterPrefix ∈ prefixes, ∀ name, Name.isPrefixOf filterPrefix name = true →
        (ConsumerInterestTaken filterPrefix name ↔
          if filterPrefix.length = 1 then 1 < name.length else ¬ IsKiteRequest filterPrefix name)) := by
  have hts : ∀ rvPrefix ∈ prefixes, ¬ TsRequestHandled prefixes rvPrefix := by
    intro rvPrefix _ hhandled
    have hcalls := hhandled.1
    rw [calls_onTsRequest] at hcalls
    exact absurd hcalls (Nat.lt_irrefl 0)
  refine ⟨⟨fun hclassifies => ?_, ?_⟩, hts, ?_, ?_⟩
  · cases prefixes with
    | nil => rfl
    | cons rvPrefix prefixes => exact absurd (hclassifies.timestamps rvPrefix List.mem_cons_self) (hts rvPrefix List.mem_cons_self)
  · rintro rfl
    exact ⟨fun _ h => absurd h List.not_mem_nil, fun _ _ _ _ h => absurd h List.not_mem_nil,
      fun _ h => absurd h List.not_mem_nil⟩
  · intro request now nonce signer hmem
    rw [processed_makeInterest h request now nonce signer hmem, Nat.add_eq_left, List.countP_eq_zero]
    simp only [Bool.not_eq_true]
  · intro filterPrefix hmem name hprefix
    exact consumerInterestTaken_iff (h.nonempty filterPrefix hmem) (h.keyword filterPrefix hmem) hprefix

/-- A prefix below the timestamps of another: a request for it is handled twice. -/
theorem classifies_iff_nested : processed [[⟨8, [97]⟩], [⟨8, [97]⟩, TS_COMP]]
    (KiteRequest.makeInterest ⟨[⟨8, [97]⟩, TS_COMP], [⟨8, [98]⟩], 0, 0, none⟩ 1500 7
      (fun _ => (⟨22, []⟩, ⟨23, []⟩))).m_name ≠ 1 := by
  intro hone
  have hfilters := (classifies_iff [[⟨8, [97]⟩], [⟨8, [97]⟩, TS_COMP]] ⟨by decide, by decide, by decide⟩).2.2.1
    ⟨[⟨8, [97]⟩, TS_COMP], [⟨8, [98]⟩], 0, 0, none⟩ 1500 7 (fun _ => (⟨22, []⟩, ⟨23, []⟩)) (by decide)
  exact absurd (hfilters.mp hone [⟨8, [97]⟩] (by decide)) (by decide)

/-- One prefix `/rv`: no filter calls `onTsRequest`. -/
theorem not_classifies_alice : ¬ Classifies [[⟨8, [114, 118]⟩]] := by
  intro hclassifies
  have hcalls := (hclassifies.timestamps [⟨8, [114, 118]⟩] (by decide)).1
  rw [calls_onTsRequest] at hcalls
  exact absurd hcalls (Nat.lt_irrefl 0)

end Classification

end LeoNdn.RendezvousFilters
