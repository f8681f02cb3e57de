import LeoNdn.ChunkTransfer

/-!
Whatever the network does, the consumer writes a beginning of the file; once all
segments have been counted it is the file, and until then a fetcher is at work or a
failure has been reported.
-/

namespace LeoNdn.ChunkTransfer

open LeoNdn.Tlv LeoNdn.NdnPacket LeoNdn.InOrderDelivery

/-- The segments that have come in, each once, and what the consumer has made of them. -/
structure Delivered (fetch : Fetch) (source : ℕ → Data) (numbers : List ℕ) (s : Transfer) : Prop where
  nodup : numbers.Nodup
  lt_store : ∀ number ∈ numbers, number < fetch.m_store.length
  received : s.m_nReceived = numbers.length
  waiting : Waiting source numbers s.m_nextToPrint s.m_bufferedData
  written : s.m_outputStream = ((List.range s.m_nextToPrint).map source).flatMap (fun data => data.m_content.value)

structure Known (fetch : Fetch) (numbers : List ℕ) (s : Transfer) : Prop where
  known : s.m_hasFinalBlockId = true ↔ numbers ≠ []
  last : s.m_hasFinalBlockId = true → s.m_lastSegmentNo = fetch.m_store.length - 1

/-- No two fetchers are for one segment, and none that may still be fetched has come in. -/
structure Fetching (numbers : List ℕ) (maxPipelineSize : ℕ) (s : Transfer) : Prop where
  lt_next : ∀ number ∈ numbers, number < s.m_nextSegmentNo
  bound : s.m_nextSegmentNo ≤ numbers.length + maxPipelineSize
  at_lt : ∀ pipeNo fetcher segmentNo, At s pipeNo fetcher segmentNo → segmentNo < s.m_nextSegmentNo
  at_pipe : ∀ pipeNo fetcher segmentNo pipeNo' fetcher', At s pipeNo fetcher segmentNo →
    At s pipeNo' fetcher' segmentNo → pipeNo = pipeNo'
  at_new : ∀ pipeNo fetcher segmentNo, At s pipeNo fetcher segmentNo →
    fetcher.isRunning = true ∨ fetcher.m_hasError = true → segmentNo ∉ numbers

/-- While the pipeline is not stopping, each segment that has been requested has come
in or has a fetcher, and fetchers are idle only for a reason. -/
structure Working (numbers : List ℕ) (maxPipelineSize : ℕ) (s : Transfer) : Prop where
  quiet : s.posted = []
  filled : ∀ pipeNo < maxPipelineSize, ∃ fetcher segmentNo, At s pipeNo fetcher segmentNo
  covered : ∀ segmentNo < s.m_nextSegmentNo, (s.m_hasFinalBlockId = true → segmentNo ≤ s.m_lastSegmentNo) →
    segmentNo ∈ numbers ∨ ∃ pipeNo fetcher, At s pipeNo fetcher segmentNo
  running_le : s.m_hasFinalBlockId = true → ∀ pipeNo fetcher segmentNo, At s pipeNo fetcher segmentNo →
    fetcher.isRunning = true → segmentNo ≤ s.m_lastSegmentNo
  working : s.m_hasFailure = false → ∀ pipeNo fetcher segmentNo, At s pipeNo fetcher segmentNo →
    fetcher.isRunning = true ∨ segmentNo ∈ numbers ∨ s.m_hasFinalBlockId = true ∧ s.m_lastSegmentNo < segmentNo
  idle : s.m_hasFailure = false → s.m_hasFinalBlockId = true →
    (∀ pipeNo fetcher segmentNo, At s pipeNo fetcher segmentNo → fetcher.isRunning = true) ∨
      s.m_lastSegmentNo < s.m_nextSegmentNo
  failing : s.m_hasFailure = true → s.m_hasFinalBlockId = false →
    ∃ pipeNo fetcher segmentNo, At s pipeNo fetcher segmentNo ∧ fetcher.isRunning = true
  failed : s.m_hasFailure = true → s.m_hasFinalBlockId = true → s.allSegmentsReceived = true

structure Invariant (fetch : Fetch) (source : ℕ → Data) (maxPipelineSize : ℕ) (numbers : List ℕ) (s : Transfer) :
    Prop where
  delivered : Delivered fetch source numbers s
  known : Known fetch numbers s
  fetching : Fetching numbers maxPipelineSize s
  stopped : s.m_isStopping = true →
    s.m_segmentFetchers = [] ∧ s.allSegmentsReceived = false ∧ ∃ reason, s.posted = [reason]
  work : s.m_isStopping = false → Working numbers maxPipelineSize s

section Stopping

variable {fetch : Fetch} {source : ℕ → Data} {maxPipelineSize : ℕ} {numbers : List ℕ} {s : Transfer}

theorem not_at_of_nil (h : s.m_segmentFetchers = []) (pipeNo : ℕ) (fetcher : DataFetcher) (segmentNo : ℕ) :
    ¬ At s pipeNo fetcher segmentNo := by
  rw [At, h]
  simp

theorem Invariant.not_stopping (h : Invariant fetch source maxPipelineSize numbers s) {pipeNo segmentNo : ℕ}
    {fetcher : DataFetcher} (hat : At s pipeNo fetcher segmentNo) : s.m_isStopping = false := by
  cases hstopping : s.m_isStopping with
  | false => rfl
  | true => exact absurd hat (not_at_of_nil (h.stopped hstopping).1 _ _ _)

theorem invariant_onFailure (hdelivered : Delivered fetch source numbers s) (hknown : Known fetch numbers s)
    (hfetching : Fetching numbers maxPipelineSize s) (hstopping : s.m_isStopping = false) (hquiet : s.posted = [])
    (hrest : s.allSegmentsReceived = false) (reason : Failure) :
    Invariant fetch source maxPipelineSize numbers (s.onFailure reason) := by
  have hfailure : s.onFailure reason =
      { s with m_isStopping := true, m_segmentFetchers := [], posted := [reason] } := by
    simp [Transfer.onFailure, Transfer.cancel, hstopping, hquiet]
  have hnone (pipeNo : ℕ) (fetcher : DataFetcher) (segmentNo : ℕ) : ¬ At (s.onFailure reason) pipeNo fetcher segmentNo :=
    not_at_of_nil (by rw [hfailure]) _ _ _
  refine ⟨?_, ?_, ?_, ?_, ?_⟩
  · rw [hfailure]
    exact ⟨hdelivered.nodup, hdelivered.lt_store, hdelivered.received, hdelivered.waiting, hdelivered.written⟩
  · rw [hfailure]
    exact ⟨hknown.known, hknown.last⟩
  · refine ⟨?_, ?_, fun _ _ _ hat => absurd hat (hnone _ _ _), fun _ _ _ _ _ hat => absurd hat (hnone _ _ _),
      fun _ _ _ hat => absurd hat (hnone _ _ _)⟩
    · rw [hfailure]
      exact hfetching.lt_next
    · rw [hfailure]
      exact hfetching.bound
  · intro _
    rw [hfailure]
    exact ⟨rfl, hrest, reason, rfl⟩
  · intro hfalse
    rw [hfailure] at hfalse
    cases hfalse

theorem allSegmentsReceived_iff (hdelivered : Delivered fetch source numbers s) (hknown : Known fetch numbers s) :
    s.allSegmentsReceived = true ↔ numbers ≠ [] ∧ fetch.m_store.length ≤ numbers.length := by
  simp only [Transfer.allSegmentsReceived, Bool.and_eq_true, decide_eq_true_iff, hdelivered.received]
  constructor
  · rintro ⟨⟨hpos, hfinal⟩, hlast⟩
    rw [hknown.last hfinal] at hlast
    exact ⟨hknown.known.mp hfinal, by omega⟩
  · rintro ⟨hne, hlength⟩
    have hfinal := hknown.known.mpr hne
    rw [hknown.last hfinal]
    exact ⟨⟨List.length_pos_iff.mpr hne, hfinal⟩, by omega⟩

theorem mem_of_allSegmentsReceived (hdelivered : Delivered fetch source numbers s) (hknown : Known fetch numbers s)
    (hall : s.allSegmentsReceived = true) {segmentNo : ℕ} (hlt : segmentNo < fetch.m_store.length) :
    segmentNo ∈ numbers := by
  obtain ⟨-, hlength⟩ := (allSegmentsReceived_iff hdelivered hknown).mp hall
  have hnext := hdelivered.waiting.next_eq hdelivered.lt_store hdelivered.nodup hlength
  exact hdelivered.waiting.before segmentNo (hnext ▸ hlt)

end Stopping

section Replacing

variable {fetch : Fetch} {source : ℕ → Data} {maxPipelineSize : ℕ} {numbers : List ℕ} {s : Transfer} {pipeNo segmentNo : ℕ}
  {fetcher fetcher' : DataFetcher}

theorem Delivered.setFetcher (h : Delivered fetch source numbers s) :
    Delivered fetch source numbers (s.setFetcher pipeNo fetcher segmentNo) :=
  ⟨h.nodup, h.lt_store, h.received, h.waiting, h.written⟩

theorem Known.setFetcher (h : Known fetch numbers s) : Known fetch numbers (s.setFetcher pipeNo fetcher segmentNo) :=
  ⟨h.known, h.last⟩

theorem Delivered.updateFetchers (h : Delivered fetch source numbers s) (f : DataFetcher → ℕ → DataFetcher) :
    Delivered fetch source numbers (s.updateFetchers f) :=
  ⟨h.nodup, h.lt_store, h.received, h.waiting, h.written⟩

theorem Known.updateFetchers (h : Known fetch numbers s) (f : DataFetcher → ℕ → DataFetcher) :
    Known fetch numbers (s.updateFetchers f) := ⟨h.known, h.last⟩

theorem Fetching.setFetcher (h : Fetching numbers maxPipelineSize s) (hat : At s pipeNo fetcher segmentNo)
    (hnew : fetcher'.isRunning = true ∨ fetcher'.m_hasError = true → segmentNo ∉ numbers) :
    Fetching numbers maxPipelineSize (s.setFetcher pipeNo fetcher' segmentNo) where
  lt_next := h.lt_next
  bound := h.bound
  at_lt p f n hp := by
    rcases (at_setFetcher hat.lt_length).mp hp with ⟨rfl, rfl, rfl⟩ | ⟨-, hold⟩
    · exact h.at_lt _ _ _ hat
    · exact h.at_lt _ _ _ hold
  at_pipe p f n p' f' hp hp' := by
    rcases (at_setFetcher hat.lt_length).mp hp with ⟨rfl, rfl, rfl⟩ | ⟨hne, hold⟩
    · rcases (at_setFetcher hat.lt_length).mp hp' with ⟨rfl, -, -⟩ | ⟨-, hold'⟩
      · rfl
      · exact h.at_pipe _ _ _ _ _ hat hold'
    · rcases (at_setFetcher hat.lt_length).mp hp' with ⟨rfl, rfl, rfl⟩ | ⟨-, hold'⟩
      · exact h.at_pipe _ _ _ _ _ hold hat
      · exact h.at_pipe _ _ _ _ _ hold hold'
  at_new p f n hp hor := by
    rcases (at_setFetcher hat.lt_length).mp hp with ⟨rfl, rfl, rfl⟩ | ⟨-, hold⟩
    · exact hnew hor
    · exact h.at_new _ _ _ hold hor

theorem Fetching.updateFetchers (h : Fetching numbers maxPipelineSize s) {f : DataFetcher → ℕ → DataFetcher}
    (hf : ∀ fetcher segmentNo, (f fetcher segmentNo).isRunning = true ∨ (f fetcher segmentNo).m_hasError = true →
      fetcher.isRunning = true ∨ fetcher.m_hasError = true) :
    Fetching numbers maxPipelineSize (s.updateFetchers f) where
  lt_next := h.lt_next
  bound := h.bound
  at_lt p g n hp := by
    obtain ⟨old, hold, -⟩ := at_updateFetchers.mp hp
    exact h.at_lt _ _ _ hold
  at_pipe p g n p' g' hp hp' := by
    obtain ⟨old, hold, -⟩ := at_updateFetchers.mp hp
    obtain ⟨old', hold', -⟩ := at_updateFetchers.mp hp'
    exact h.at_pipe _ _ _ _ _ hold hold'
  at_new p g n hp hor := by
    obtain ⟨old, hold, rfl⟩ := at_updateFetchers.mp hp
    exact h.at_new _ _ _ hold (hf old n hor)

theorem exists_at_setFetcher (fetcher' : DataFetcher) (hat : At s pipeNo fetcher segmentNo) {p n : ℕ} (hp : ∃ f, At s p f n) :
    ∃ f, At (s.setFetcher pipeNo fetcher' segmentNo) p f n := by
  obtain ⟨f, hp⟩ := hp
  by_cases heq : p = pipeNo
  · subst heq
    exact ⟨fetcher', (at_setFetcher hat.lt_length).mpr (Or.inl ⟨rfl, rfl, (at_inj hp hat).2⟩)⟩
  · exact ⟨f, (at_setFetcher hat.lt_length).mpr (Or.inr ⟨heq, hp⟩)⟩

theorem filled_setFetcher (hat : At s pipeNo fetcher segmentNo)
    (hfilled : ∀ p < maxPipelineSize, ∃ f n, At s p f n) (other : ℕ) :
    ∀ p < maxPipelineSize, ∃ f n, At (s.setFetcher pipeNo fetcher' other) p f n := by
  intro p hp
  obtain ⟨f, n, hold⟩ := hfilled p hp
  by_cases heq : p = pipeNo
  · exact ⟨fetcher', other, (at_setFetcher hat.lt_length).mpr (Or.inl ⟨heq, rfl, rfl⟩)⟩
  · exact ⟨f, n, (at_setFetcher hat.lt_length).mpr (Or.inr ⟨heq, hold⟩)⟩

def cancelBeyond (lastNo : ℕ) (fetcher : DataFetcher) (segmentNo : ℕ) : DataFetcher :=
  if segmentNo > lastNo then fetcher.cancel else fetcher

theorem cancelBeyond_active (lastNo : ℕ) (fetcher : DataFetcher) (segmentNo : ℕ)
    (h : (cancelBeyond lastNo fetcher segmentNo).isRunning = true ∨
      (cancelBeyond lastNo fetcher segmentNo).m_hasError = true) :
    fetcher.isRunning = true ∨ fetcher.m_hasError = true := by
  unfold cancelBeyond at h
  split at h
  · rw [isRunning_cancel, hasError_cancel] at h
    exact Or.inr (h.resolve_left Bool.false_ne_true)
  · exact h

theorem cancelBeyond_of_le {lastNo : ℕ} (hle : segmentNo ≤ lastNo) (fetcher : DataFetcher) :
    cancelBeyond lastNo fetcher segmentNo = fetcher := if_neg (Nat.not_lt.mpr hle)

theorem Invariant.setRunning (h : Invariant fetch source maxPipelineSize numbers s) (hat : At s pipeNo fetcher segmentNo)
    (hrunning : fetcher.isRunning = true) (hrunning' : fetcher'.isRunning = true) :
    Invariant fetch source maxPipelineSize numbers (s.setFetcher pipeNo fetcher' segmentNo) := by
  have hstopping := h.not_stopping hat
  have hwork := h.work hstopping
  have hset (p : ℕ) (f : DataFetcher) (n : ℕ) : At (s.setFetcher pipeNo fetcher' segmentNo) p f n ↔
      p = pipeNo ∧ f = fetcher' ∧ n = segmentNo ∨ p ≠ pipeNo ∧ At s p f n := at_setFetcher hat.lt_length
  refine ⟨h.delivered.setFetcher, h.known.setFetcher,
    h.fetching.setFetcher hat (fun _ => h.fetching.at_new _ _ _ hat (Or.inl hrunning)), ?_, fun _ => ?_⟩
  · intro htrue
    exact absurd (htrue.symm.trans hstopping) (by decide)
  · refine ⟨hwork.quiet, filled_setFetcher hat hwork.filled segmentNo, ?_, ?_, ?_, ?_, ?_, hwork.failed⟩
    · exact fun n hn hle => (hwork.covered n hn hle).imp_right (Exists.imp fun _ hp => exists_at_setFetcher _ hat hp)
    · intro hfinal p f n hp hrun
      rcases (hset _ _ _).mp hp with ⟨rfl, rfl, rfl⟩ | ⟨-, hold⟩
      · exact hwork.running_le hfinal _ _ _ hat hrunning
      · exact hwork.running_le hfinal _ _ _ hold hrun
    · intro hfailure p f n hp
      rcases (hset _ _ _).mp hp with ⟨rfl, rfl, rfl⟩ | ⟨-, hold⟩
      · exact Or.inl hrunning'
      · exact hwork.working hfailure _ _ _ hold
    · intro hfailure hfinal
      refine (hwork.idle hfailure hfinal).imp_left fun hall p f n hp => ?_
      rcases (hset _ _ _).mp hp with ⟨rfl, rfl, rfl⟩ | ⟨-, hold⟩
      · exact hrunning'
      · exact hall _ _ _ hold
    · intro hfailure hfinal
      exact ⟨pipeNo, fetcher', segmentNo, (hset _ _ _).mpr (Or.inl ⟨rfl, rfl, rfl⟩), hrunning'⟩

/-- A fetcher fails: the pipeline stops, or notes the failure while another fetcher
of a lesser segment is running. -/
theorem Invariant.fail (h : Invariant fetch source maxPipelineSize numbers s) (hpublished : Published fetch source)
    (hat : At s pipeNo fetcher segmentNo) (hrunning : fetcher.isRunning = true) (reason : Failure) :
    Invariant fetch source maxPipelineSize numbers
      ((s.setFetcher pipeNo fetcher' segmentNo).handleFail reason segmentNo) := by
  have hstopping := h.not_stopping hat
  have hwork := h.work hstopping
  have hnew : segmentNo ∉ numbers := h.fetching.at_new _ _ _ hat (Or.inl hrunning)
  have hfetching : Fetching numbers maxPipelineSize (s.setFetcher pipeNo fetcher' segmentNo) :=
    h.fetching.setFetcher hat (fun _ => hnew)
  have hrest : s.allSegmentsReceived = false := by
    by_contra hall
    rw [Bool.not_eq_false] at hall
    obtain ⟨hne, -⟩ := (allSegmentsReceived_iff h.delivered h.known).mp hall
    have hfinal := h.known.known.mpr hne
    have hle := hwork.running_le hfinal _ _ _ hat hrunning
    rw [h.known.last hfinal] at hle
    have hpos := hpublished.nonempty
    exact hnew (mem_of_allSegmentsReceived h.delivered h.known hall (by omega))
  have hstop (reason : Failure) (s' : Transfer) (heq : s' = s.setFetcher pipeNo fetcher' segmentNo) :
      Invariant fetch source maxPipelineSize numbers (s'.onFailure reason) := by
    subst heq
    exact invariant_onFailure h.delivered.setFetcher h.known.setFetcher hfetching hstopping hwork.quiet hrest reason
  obtain ⟨replaced, hreplaced⟩ : ∃ replaced, replaced = s.setFetcher pipeNo fetcher' segmentNo := ⟨_, rfl⟩
  have hfields : replaced.m_isStopping = false ∧ replaced.m_hasFinalBlockId = s.m_hasFinalBlockId ∧
      replaced.m_lastSegmentNo = s.m_lastSegmentNo := by
    rw [hreplaced]
    exact ⟨hstopping, rfl, rfl⟩
  obtain ⟨hstopping', hfinal', hlast'⟩ := hfields
  rw [← hreplaced, Transfer.handleFail, if_neg (by simp [hstopping'])]
  cases hfinal : s.m_hasFinalBlockId with
  | true =>
    have hle := hwork.running_le hfinal _ _ _ hat hrunning
    rw [if_pos (hfinal'.trans hfinal), if_pos (by rwa [hlast'])]
    exact hstop reason replaced hreplaced
  | false =>
    rw [if_neg (by simp [hfinal', hfinal])]
    change Invariant fetch source maxPipelineSize numbers
      (if _ then (replaced.updateFetchers (cancelBeyond segmentNo)).onFailure .noFinalSegment
        else { replaced.updateFetchers (cancelBeyond segmentNo) with m_hasFailure := true })
    have hupdated : Fetching numbers maxPipelineSize (replaced.updateFetchers (cancelBeyond segmentNo)) := by
      rw [hreplaced]
      exact hfetching.updateFetchers (cancelBeyond_active segmentNo)
    have hdelivered : Delivered fetch source numbers (replaced.updateFetchers (cancelBeyond segmentNo)) := by
      rw [hreplaced]
      exact h.delivered.setFetcher.updateFetchers _
    have hknown : Known fetch numbers (replaced.updateFetchers (cancelBeyond segmentNo)) := by
      rw [hreplaced]
      exact h.known.setFetcher.updateFetchers _
    have hquiet : (replaced.updateFetchers (cancelBeyond segmentNo)).posted = [] := by
      rw [hreplaced]
      exact hwork.quiet
    split
    · refine invariant_onFailure hdelivered hknown hupdated hstopping' hquiet ?_ .noFinalSegment
      rw [hreplaced]
      exact hrest
    · rename_i hothers
      rw [Bool.not_eq_true, List.all_eq_false] at hothers
      obtain ⟨entry, hentry, hactive⟩ := hothers
      obtain ⟨p, hp⟩ := mem_fetchers.mp hentry
      obtain ⟨hle, hrun⟩ : entry.2 ≤ segmentNo ∧ entry.1.isRunning = true := by simpa using hactive
      have hat' (q : ℕ) (n : ℕ) (hq : ∃ f, At s q f n) : ∃ f, At (replaced.updateFetchers (cancelBeyond segmentNo)) q f n := by
        obtain ⟨f, hq'⟩ := exists_at_setFetcher fetcher' hat hq
        exact ⟨_, at_updateFetchers.mpr ⟨f, hreplaced ▸ hq', rfl⟩⟩
      have hunknown : (replaced.updateFetchers (cancelBeyond segmentNo)).m_hasFinalBlockId = false := hfinal'.trans hfinal
      refine ⟨⟨hdelivered.nodup, hdelivered.lt_store, hdelivered.received, hdelivered.waiting, hdelivered.written⟩,
        ⟨hknown.known, hknown.last⟩, ⟨hupdated.lt_next, hupdated.bound, hupdated.at_lt, hupdated.at_pipe, hupdated.at_new⟩,
        ?_, fun _ => ⟨hquiet, ?_, ?_, ?_, ?_, ?_, ?_, ?_⟩⟩
      · intro htrue
        exact absurd (htrue.symm.trans hstopping') (by decide)
      · intro q hq
        obtain ⟨f, n, hold⟩ := hwork.filled q hq
        obtain ⟨f', hf'⟩ := hat' q n ⟨f, hold⟩
        exact ⟨f', n, hf'⟩
      · intro n hn hle
        have hlt : n < s.m_nextSegmentNo := by rwa [hreplaced] at hn
        refine (hwork.covered n hlt fun htrue => absurd (htrue.symm.trans hfinal) (by decide)).imp_right ?_
        rintro ⟨q, f, hold⟩
        obtain ⟨f', hf'⟩ := hat' q n ⟨f, hold⟩
        exact ⟨q, f', hf'⟩
      · intro htrue
        exact absurd (htrue.symm.trans hunknown) (by decide)
      · intro hfalse
        cases hfalse
      · intro hfalse
        cases hfalse
      · intro _ _
        exact ⟨p, entry.1, entry.2, at_updateFetchers.mpr ⟨entry.1, hp, (cancelBeyond_of_le hle entry.1).symm⟩, hrun⟩
      · intro _ htrue
        exact absurd (htrue.symm.trans hunknown) (by decide)

end Replacing

section Data

variable {fetch : Fetch} {source : ℕ → Data} {maxPipelineSize : ℕ} {numbers : List ℕ} {s : Transfer} {pipeNo segmentNo : ℕ}
  {fetcher : DataFetcher}

/-- The segment of a pipe has come in, the last one is known, and the pipe may fetch
the next one. -/
structure Ready (fetch : Fetch) (source : ℕ → Data) (maxPipelineSize : ℕ) (numbers : List ℕ) (pipeNo : ℕ) (s : Transfer) :
    Prop where
  delivered : Delivered fetch source numbers s
  known : Known fetch numbers s
  fetching : Fetching numbers maxPipelineSize s
  room : s.m_nextSegmentNo + 1 ≤ numbers.length + maxPipelineSize
  final : s.m_hasFinalBlockId = true
  going : s.m_isStopping = false
  quiet : s.posted = []
  free : ∃ fetcher segmentNo, At s pipeNo fetcher segmentNo ∧ segmentNo ∈ numbers
  filled : ∀ pipeNo < maxPipelineSize, ∃ fetcher segmentNo, At s pipeNo fetcher segmentNo
  covered : ∀ segmentNo < s.m_nextSegmentNo, segmentNo ≤ s.m_lastSegmentNo →
    segmentNo ∈ numbers ∨ ∃ pipeNo fetcher, At s pipeNo fetcher segmentNo
  running_le : ∀ pipeNo fetcher segmentNo, At s pipeNo fetcher segmentNo → fetcher.isRunning = true →
    segmentNo ≤ s.m_lastSegmentNo
  working : s.m_hasFailure = false → ∀ pipeNo fetcher segmentNo, At s pipeNo fetcher segmentNo →
    fetcher.isRunning = true ∨ segmentNo ∈ numbers ∨ s.m_lastSegmentNo < segmentNo
  idle : s.m_hasFailure = false →
    (∀ other fetcher segmentNo, At s other fetcher segmentNo → other ≠ pipeNo → fetcher.isRunning = true) ∨
      s.m_lastSegmentNo < s.m_nextSegmentNo

theorem Ready.exhausted (h : Ready fetch source maxPipelineSize numbers pipeNo s)
    (hlast : s.m_lastSegmentNo < s.m_nextSegmentNo)
    (hfailed : s.m_hasFailure = true → s.allSegmentsReceived = true) : Invariant fetch source maxPipelineSize numbers s where
  delivered := h.delivered
  known := h.known
  fetching := h.fetching
  stopped htrue := absurd (htrue.symm.trans h.going) (by decide)
  work _ := {
    quiet := h.quiet
    filled := h.filled
    covered := fun n hn hle => h.covered n hn (hle h.final)
    running_le := fun _ => h.running_le
    working := fun hfailure p f n hp => (h.working hfailure p f n hp).imp_right (Or.imp_right fun hlt => ⟨h.final, hlt⟩)
    idle := fun _ _ => Or.inr hlast
    failing := fun _ hfalse => absurd (hfalse.symm.trans h.final) (by decide)
    failed := fun hfailure _ => hfailed hfailure }

theorem Ready.skip (h : Ready fetch source maxPipelineSize numbers pipeNo s)
    (hlast : s.m_lastSegmentNo < s.m_nextSegmentNo) (hfailure : s.m_hasFailure = false) :
    Invariant fetch source maxPipelineSize numbers { s with m_nextSegmentNo := s.m_nextSegmentNo + 1 } := by
  refine ⟨⟨h.delivered.nodup, h.delivered.lt_store, h.delivered.received, h.delivered.waiting, h.delivered.written⟩,
    ⟨h.known.known, h.known.last⟩, ⟨fun n hn => Nat.lt_succ_of_lt (h.fetching.lt_next n hn), h.room,
      fun p f n hp => Nat.lt_succ_of_lt (h.fetching.at_lt p f n hp), h.fetching.at_pipe, h.fetching.at_new⟩,
    fun htrue => absurd (htrue.symm.trans h.going) (by decide), fun _ => ⟨h.quiet, h.filled, ?_, fun _ => h.running_le, ?_,
      fun _ _ => Or.inr (Nat.lt_succ_of_lt hlast), ?_, ?_⟩⟩
  · intro n hn hle
    have hle' := hle h.final
    exact h.covered n (lt_of_le_of_lt hle' hlast) hle'
  · exact fun hfailure p f n hp => (h.working hfailure p f n hp).imp_right (Or.imp_right fun hlt => ⟨h.final, hlt⟩)
  · exact fun htrue => absurd (htrue.symm.trans hfailure) (by decide)
  · exact fun htrue => absurd (htrue.symm.trans hfailure) (by decide)

theorem Ready.request (h : Ready fetch source maxPipelineSize numbers pipeNo s)
    (hlast : s.m_nextSegmentNo ≤ s.m_lastSegmentNo) (hfailure : s.m_hasFailure = false) :
    Invariant fetch source maxPipelineSize numbers
      ({ s with m_nextSegmentNo := s.m_nextSegmentNo + 1 }.setFetcher pipeNo DataFetcher.fetch s.m_nextSegmentNo) := by
  obtain ⟨old, number, hat, hin⟩ := h.free
  have hset (p : ℕ) (f : DataFetcher) (n : ℕ) :
      At ({ s with m_nextSegmentNo := s.m_nextSegmentNo + 1 }.setFetcher pipeNo DataFetcher.fetch s.m_nextSegmentNo) p f n ↔
        p = pipeNo ∧ f = DataFetcher.fetch ∧ n = s.m_nextSegmentNo ∨ p ≠ pipeNo ∧ At s p f n :=
    at_setFetcher hat.lt_length
  have hold (p : ℕ) (f : DataFetcher) (n : ℕ) (hp : At s p f n) : n ≠ s.m_nextSegmentNo :=
    (h.fetching.at_lt p f n hp).ne
  have hrunning : DataFetcher.fetch.isRunning = true := rfl
  have hothers := (h.idle hfailure).resolve_right (Nat.not_lt.mpr hlast)
  refine ⟨⟨h.delivered.nodup, h.delivered.lt_store, h.delivered.received, h.delivered.waiting, h.delivered.written⟩,
    ⟨h.known.known, h.known.last⟩, ⟨fun n hn => Nat.lt_succ_of_lt (h.fetching.lt_next n hn), h.room, ?_, ?_, ?_⟩,
    fun htrue => absurd (htrue.symm.trans h.going) (by decide), fun _ => ⟨h.quiet, ?_, ?_, ?_, ?_, ?_, ?_, ?_⟩⟩
  · intro p f n hp
    rcases (hset p f n).mp hp with ⟨-, -, rfl⟩ | ⟨-, hbefore⟩
    · exact Nat.lt_succ_self _
    · exact Nat.lt_succ_of_lt (h.fetching.at_lt p f n hbefore)
  · intro p f n p' f' hp hp'
    rcases (hset p f n).mp hp with ⟨rfl, -, rfl⟩ | ⟨-, hbefore⟩
    · rcases (hset p' f' _).mp hp' with ⟨rfl, -, -⟩ | ⟨-, hbefore'⟩
      · rfl
      · exact absurd rfl (hold _ _ _ hbefore')
    · rcases (hset p' f' n).mp hp' with ⟨-, -, rfl⟩ | ⟨-, hbefore'⟩
      · exact absurd rfl (hold _ _ _ hbefore)
      · exact h.fetching.at_pipe _ _ _ _ _ hbefore hbefore'
  · intro p f n hp hor
    rcases (hset p f n).mp hp with ⟨-, -, rfl⟩ | ⟨-, hbefore⟩
    · exact fun hmem => absurd (h.fetching.lt_next _ hmem) (lt_irrefl _)
    · exact h.fetching.at_new p f n hbefore hor
  · exact filled_setFetcher hat h.filled _
  · intro n hn hle
    rcases Nat.lt_succ_iff_lt_or_eq.mp hn with hlt | rfl
    · refine (h.covered n hlt (hle h.final)).elim Or.inl ?_
      rintro ⟨p, f, hbefore⟩
      by_cases heq : p = pipeNo
      · subst heq
        exact Or.inl ((at_inj hbefore hat).2 ▸ hin)
      · exact Or.inr ⟨p, f, (hset _ _ _).mpr (Or.inr ⟨heq, hbefore⟩)⟩
    · exact Or.inr ⟨pipeNo, _, (hset _ _ _).mpr (Or.inl ⟨rfl, rfl, rfl⟩)⟩
  · intro _ p f n hp hrun
    rcases (hset p f n).mp hp with ⟨-, -, rfl⟩ | ⟨-, hbefore⟩
    · exact hlast
    · exact h.running_le p f n hbefore hrun
  · intro _ p f n hp
    rcases (hset p f n).mp hp with ⟨-, rfl, -⟩ | ⟨hne, hbefore⟩
    · exact Or.inl hrunning
    · exact Or.inl (hothers p f n hbefore hne)
  · intro _ _
    refine Or.inl fun p f n hp => ?_
    rcases (hset p f n).mp hp with ⟨-, rfl, -⟩ | ⟨hne, hbefore⟩
    · exact hrunning
    · exact hothers p f n hbefore hne
  · exact fun htrue => absurd (htrue.symm.trans hfailure) (by decide)
  · exact fun htrue => absurd (htrue.symm.trans hfailure) (by decide)

theorem Ready.finishData (h : Ready fetch source maxPipelineSize numbers pipeNo s) :
    Invariant fetch source maxPipelineSize numbers (s.finishData pipeNo) := by
  rw [Transfer.finishData]
  split
  · rename_i hall
    refine h.exhausted ?_ (fun _ => hall)
    obtain ⟨fetcher, number, -, hin⟩ := h.free
    have hpos := h.delivered.lt_store number hin
    rw [h.known.last h.final]
    exact h.fetching.lt_next _ (mem_of_allSegmentsReceived h.delivered h.known hall (by omega))
  · rename_i hrest
    rw [Transfer.fetchNextSegment, if_neg (by simp [h.going])]
    by_cases hfailure : s.m_hasFailure = true
    · rw [if_pos hfailure]
      exact invariant_onFailure h.delivered h.known h.fetching h.going h.quiet (Bool.not_eq_true _ ▸ hrest) .noFinalSegment
    · rw [if_neg hfailure]
      dsimp only
      rw [Bool.not_eq_true] at hfailure
      split
      · rename_i hbeyond
        exact h.skip hbeyond.2 hfailure
      · rename_i hbeyond
        have hlast : s.m_nextSegmentNo ≤ s.m_lastSegmentNo := by
          by_contra hlt
          exact hbeyond ⟨h.final, Nat.not_le.mp hlt⟩
        exact h.request hlast hfailure

/-- The segment of a running fetcher, as the consumer has taken it in. -/
def taken (s : Transfer) (pipeNo segmentNo : ℕ) (fetcher : DataFetcher) (data : Data) : Transfer :=
  { s.setFetcher pipeNo { fetcher with m_isStopped := true } segmentNo with
    m_nReceived := s.m_nReceived + 1
    m_bufferedData := insertOrAssign s.m_bufferedData segmentNo data }.writeInOrderData

theorem consume_segment (hpublished : Published fetch source) (hlt : segmentNo < fetch.m_store.length)
    (hsmall : fetch.m_store.length < 18446744073709551616) (s : Transfer) :
    s.consume (source segmentNo) =
      .ok { s with m_bufferedData := insertOrAssign s.m_bufferedData segmentNo (source segmentNo) }.writeInOrderData := by
  rw [Transfer.consume, if_neg (by rw [hpublished.contentType segmentNo hlt]; decide), hpublished.name segmentNo hlt,
    getSegmentFromPacket_segment _ (hlt.trans hsmall)]

theorem delivered_taken (h : Delivered fetch source numbers s) (hnew : segmentNo ∉ numbers)
    (hlt : segmentNo < fetch.m_store.length) :
    Delivered fetch source (segmentNo :: numbers) (taken s pipeNo segmentNo fetcher (source segmentNo)) := by
  obtain ⟨count, hitems, hnext, hwaiting⟩ := h.waiting.deliver hnew
  refine ⟨List.nodup_cons.mpr ⟨hnew, h.nodup⟩, ?_, ?_, ?_, ?_⟩
  · intro number hnumber
    rcases List.mem_cons.mp hnumber with rfl | hold
    · exact hlt
    · exact h.lt_store number hold
  · rw [List.length_cons, ← h.received]
    rfl
  · have hprint : (taken s pipeNo segmentNo fetcher (source segmentNo)).m_nextToPrint = s.m_nextToPrint + count := hnext
    rw [hprint]
    exact hwaiting
  · have hprint : (taken s pipeNo segmentNo fetcher (source segmentNo)).m_nextToPrint = s.m_nextToPrint + count := hnext
    have hstream : (taken s pipeNo segmentNo fetcher (source segmentNo)).m_outputStream = s.m_outputStream ++
        (takeInOrder s.m_nextToPrint (insertOrAssign s.m_bufferedData segmentNo (source segmentNo))).1.flatMap
          (fun data => data.m_content.value) := rfl
    have hrange : List.range s.m_nextToPrint ++ List.range' s.m_nextToPrint count = List.range (s.m_nextToPrint + count) := by
      rw [List.range_eq_range', List.range_eq_range', ← List.range'_append_1, Nat.zero_add]
    rw [hprint, hstream, hitems, h.written, ← List.flatMap_append, ← List.map_append, hrange]

theorem at_taken {data : Data} (hat : At s pipeNo fetcher segmentNo) (p : ℕ) (f : DataFetcher) (n : ℕ) :
    At (taken s pipeNo segmentNo fetcher data) p f n ↔
      p = pipeNo ∧ f = { fetcher with m_isStopped := true } ∧ n = segmentNo ∨ p ≠ pipeNo ∧ At s p f n :=
  at_setFetcher hat.lt_length

theorem fetching_taken {data : Data} (h : Fetching numbers maxPipelineSize s) (hat : At s pipeNo fetcher segmentNo)
    (herror : fetcher.m_hasError = false) :
    Fetching (segmentNo :: numbers) maxPipelineSize (taken s pipeNo segmentNo fetcher data) := by
  obtain ⟨stopped, hstopped⟩ : ∃ stopped : DataFetcher, stopped = { fetcher with m_isStopped := true } := ⟨_, rfl⟩
  have hinactive : ¬(stopped.isRunning = true ∨ stopped.m_hasError = true) := by simp [hstopped, DataFetcher.isRunning, herror]
  have hset : Fetching numbers maxPipelineSize (s.setFetcher pipeNo stopped segmentNo) :=
    h.setFetcher hat (fun hor => absurd hor hinactive)
  have hat' : At (s.setFetcher pipeNo stopped segmentNo) pipeNo stopped segmentNo :=
    (at_setFetcher hat.lt_length).mpr (Or.inl ⟨rfl, rfl, rfl⟩)
  subst hstopped
  refine ⟨fun n hn => ?_, ?_, hset.at_lt, hset.at_pipe, fun p f n hp hor => ?_⟩
  · rcases List.mem_cons.mp hn with rfl | hold
    · exact h.at_lt _ _ _ hat
    · exact h.lt_next n hold
  · have hbound := h.bound
    change s.m_nextSegmentNo ≤ numbers.length + 1 + maxPipelineSize
    omega
  · rw [List.mem_cons, not_or]
    refine ⟨?_, hset.at_new p f n hp hor⟩
    rintro rfl
    obtain rfl := hset.at_pipe _ _ _ _ _ hp hat'
    rw [(at_inj hp hat').1] at hor
    exact hinactive hor

theorem Invariant.ready_taken (h : Invariant fetch source maxPipelineSize numbers s)
    (hat : At s pipeNo fetcher segmentNo) (hrunning : fetcher.isRunning = true) (hfinal : s.m_hasFinalBlockId = true)
    (hlt : segmentNo < fetch.m_store.length) :
    Ready fetch source maxPipelineSize (segmentNo :: numbers) pipeNo
      (taken s pipeNo segmentNo fetcher (source segmentNo)) := by
  have hwork := h.work (h.not_stopping hat)
  have hnew := h.fetching.at_new _ _ _ hat (Or.inl hrunning)
  obtain ⟨-, herror⟩ : fetcher.m_isStopped = false ∧ fetcher.m_hasError = false := by
    simpa [DataFetcher.isRunning] using hrunning
  refine ⟨delivered_taken h.delivered hnew hlt, ⟨?_, h.known.last⟩, fetching_taken h.fetching hat herror, ?_, hfinal,
    h.not_stopping hat, hwork.quiet, ⟨_, segmentNo, (at_taken hat _ _ _).mpr (Or.inl ⟨rfl, rfl, rfl⟩), List.mem_cons_self⟩, ?_, ?_, ?_,
    ?_, ?_⟩
  · exact ⟨fun _ => List.cons_ne_nil _ _, fun _ => hfinal⟩
  · have hbound := h.fetching.bound
    change s.m_nextSegmentNo + 1 ≤ numbers.length + 1 + maxPipelineSize
    omega
  · exact filled_setFetcher hat hwork.filled segmentNo
  · exact fun n hn hle => (hwork.covered n hn fun _ => hle).imp (List.mem_cons_of_mem _)
      (Exists.imp fun _ hp => exists_at_setFetcher _ hat hp)
  · intro p f n hp hrun
    rcases (at_taken hat p f n).mp hp with ⟨-, rfl, -⟩ | ⟨-, hold⟩
    · simp [DataFetcher.isRunning] at hrun
    · exact hwork.running_le hfinal p f n hold hrun
  · intro hfailure p f n hp
    rcases (at_taken hat p f n).mp hp with ⟨-, -, rfl⟩ | ⟨-, hold⟩
    · exact Or.inr (Or.inl List.mem_cons_self)
    · rcases hwork.working hfailure p f n hold with hrun | hin | hbeyond
      · exact Or.inl hrun
      · exact Or.inr (Or.inl (List.mem_cons_of_mem _ hin))
      · exact Or.inr (Or.inr hbeyond.2)
  · intro hfailure
    refine (hwork.idle hfailure hfinal).imp_left fun hall p f n hp hne => ?_
    rcases (at_taken hat p f n).mp hp with ⟨heq, -, -⟩ | ⟨-, hold⟩
    · exact absurd heq hne
    · exact hall p f n hold

theorem at_learnFinalBlock {lastNo p n : ℕ} {f : DataFetcher} :
    At (s.learnFinalBlock lastNo) p f n ↔ ∃ old, At s p old n ∧ f = cancelBeyond lastNo old n := at_updateFetchers

theorem Invariant.ready_learnFinalBlock (h : Invariant fetch source maxPipelineSize numbers s)
    (hat : At s pipeNo fetcher segmentNo) (hrunning : fetcher.isRunning = true) (hfinal : s.m_hasFinalBlockId = false)
    (hlt : segmentNo < fetch.m_store.length) :
    Ready fetch source maxPipelineSize (segmentNo :: numbers) pipeNo
      ((taken s pipeNo segmentNo fetcher (source segmentNo)).learnFinalBlock (fetch.m_store.length - 1)) := by
  have hwork := h.work (h.not_stopping hat)
  have hnew := h.fetching.at_new _ _ _ hat (Or.inl hrunning)
  obtain ⟨-, herror⟩ : fetcher.m_isStopped = false ∧ fetcher.m_hasError = false := by
    simpa [DataFetcher.isRunning] using hrunning
  obtain ⟨lastNo, hlastNo⟩ : ∃ lastNo, lastNo = fetch.m_store.length - 1 := ⟨_, rfl⟩
  have hnone : numbers = [] := by
    by_contra hne
    exact absurd ((h.known.known.mpr hne).symm.trans hfinal) (by decide)
  have hdelivered : Delivered fetch source (segmentNo :: numbers) (taken s pipeNo segmentNo fetcher (source segmentNo)) :=
    delivered_taken h.delivered hnew hlt
  have hfetching : Fetching (segmentNo :: numbers) maxPipelineSize
      (taken s pipeNo segmentNo fetcher (source segmentNo)) := fetching_taken h.fetching hat herror
  have hlearned : Fetching (segmentNo :: numbers) maxPipelineSize
      ((taken s pipeNo segmentNo fetcher (source segmentNo)).learnFinalBlock lastNo) := by
    have hnoted : Fetching (segmentNo :: numbers) maxPipelineSize
        { taken s pipeNo segmentNo fetcher (source segmentNo) with m_hasFinalBlockId := true, m_lastSegmentNo := lastNo } :=
      ⟨hfetching.lt_next, hfetching.bound, hfetching.at_lt, hfetching.at_pipe, hfetching.at_new⟩
    exact hnoted.updateFetchers (cancelBeyond_active lastNo)
  have hsplit (p : ℕ) (f : DataFetcher) (n : ℕ)
      (hp : At ((taken s pipeNo segmentNo fetcher (source segmentNo)).learnFinalBlock lastNo) p f n) :
      p = pipeNo ∧ n = segmentNo ∨ p ≠ pipeNo ∧ ∃ old, At s p old n ∧ f = cancelBeyond lastNo old n := by
    obtain ⟨old, hold, heq⟩ := at_learnFinalBlock.mp hp
    rcases (at_taken hat p old n).mp hold with ⟨hpipe, -, hnumber⟩ | ⟨hne, hbefore⟩
    · exact Or.inl ⟨hpipe, hnumber⟩
    · exact Or.inr ⟨hne, old, hbefore, heq⟩
  have hat' (p n : ℕ) (hp : ∃ f, At s p f n) :
      ∃ f, At ((taken s pipeNo segmentNo fetcher (source segmentNo)).learnFinalBlock lastNo) p f n := by
    obtain ⟨f, hp'⟩ := exists_at_setFetcher { fetcher with m_isStopped := true } hat hp
    exact ⟨_, at_learnFinalBlock.mpr ⟨f, hp', rfl⟩⟩
  have hactive (hfailure : s.m_hasFailure = false) (p : ℕ) (f : DataFetcher) (n : ℕ) (hp : At s p f n) :
      f.isRunning = true := by
    rcases hwork.working hfailure p f n hp with hrun | hin | hbeyond
    · exact hrun
    · rw [hnone] at hin
      exact absurd hin List.not_mem_nil
    · exact absurd (hbeyond.1.symm.trans hfinal) (by decide)
  rw [← hlastNo]
  refine ⟨⟨hdelivered.nodup, hdelivered.lt_store, hdelivered.received, hdelivered.waiting, hdelivered.written⟩,
    ⟨⟨fun _ => List.cons_ne_nil _ _, fun _ => rfl⟩, fun _ => hlastNo⟩, hlearned, ?_, rfl, h.not_stopping hat,
    hwork.quiet, ?_, ?_, ?_, ?_, ?_, ?_⟩
  · have hbound := h.fetching.bound
    change s.m_nextSegmentNo + 1 ≤ numbers.length + 1 + maxPipelineSize
    omega
  · obtain ⟨f, hf⟩ := hat' pipeNo segmentNo ⟨fetcher, hat⟩
    exact ⟨f, segmentNo, hf, List.mem_cons_self⟩
  · intro p hp
    obtain ⟨f, n, hold⟩ := hwork.filled p hp
    obtain ⟨f', hf'⟩ := hat' p n ⟨f, hold⟩
    exact ⟨f', n, hf'⟩
  · intro n hn _
    rcases hwork.covered n hn (fun htrue => absurd (htrue.symm.trans hfinal) (by decide)) with hin | ⟨p, f, hold⟩
    · exact Or.inl (List.mem_cons_of_mem _ hin)
    · obtain ⟨f', hf'⟩ := hat' p n ⟨f, hold⟩
      exact Or.inr ⟨p, f', hf'⟩
  · intro p f n hp hrun
    by_contra hbeyond
    have hgt : lastNo < n := Nat.not_le.mp hbeyond
    obtain ⟨old, -, rfl⟩ := at_learnFinalBlock.mp hp
    rw [cancelBeyond, if_pos hgt, isRunning_cancel] at hrun
    cases hrun
  · intro hfailure p f n hp
    rcases hsplit p f n hp with ⟨-, rfl⟩ | ⟨-, old, hold, rfl⟩
    · exact Or.inr (Or.inl List.mem_cons_self)
    · by_cases hle : n ≤ lastNo
      · rw [cancelBeyond_of_le hle]
        exact Or.inl (hactive hfailure p old n hold)
      · exact Or.inr (Or.inr (Nat.not_le.mp hle))
  · intro hfailure
    by_cases hbeyond : lastNo < s.m_nextSegmentNo
    · exact Or.inr hbeyond
    · refine Or.inl fun p f n hp hne => ?_
      rcases hsplit p f n hp with ⟨heq, -⟩ | ⟨-, old, hold, rfl⟩
      · exact absurd heq hne
      · have hle : n ≤ lastNo := by
          have := h.fetching.at_lt p old n hold
          omega
        rw [cancelBeyond_of_le hle]
        exact hactive hfailure p old n hold

/-- The pipe goes on unless a segment of the content could not be fetched. -/
def checkErrors (pipeNo : ℕ) (s : Transfer) : Transfer :=
  match s.firstError with
  | some segmentNo => s.onFailure (.failureRetrieving segmentNo)
  | none => s.finishData pipeNo

theorem handleData_eq {data : Data} {lastNo : ℕ} {s s' : Transfer} (hstopping : s.m_isStopping = false)
    (hconsume : { s with m_nReceived := s.m_nReceived + 1 }.consume data = .ok s')
    (hfinal : data.m_metaInfo.m_finalBlockId = some (fromSegment lastNo)) (hsegment : toSegment (fromSegment lastNo) = .ok lastNo) :
    s.handleData data pipeNo = .ok (if s'.m_hasFinalBlockId then s'.finishData pipeNo
      else checkErrors pipeNo (s'.learnFinalBlock lastNo)) := by
  rw [Transfer.handleData, if_neg (by simp [hstopping]), hconsume]
  dsimp only
  rw [hfinal]
  dsimp only
  rw [hsegment]
  split
  · rfl
  · dsimp only [checkErrors]
    cases (s'.learnFinalBlock lastNo).firstError <;> rfl

/-- The Data of a running fetcher is counted, written when its turn comes, and the
pipe goes on. -/
theorem Invariant.reply (h : Invariant fetch source maxPipelineSize numbers s) (hpublished : Published fetch source)
    (hsmall : fetch.m_store.length < 18446744073709551616) (hat : At s pipeNo fetcher segmentNo)
    (hrunning : fetcher.isRunning = true) (hlt : segmentNo < fetch.m_store.length) :
    ∃ s', (s.setFetcher pipeNo { fetcher with m_isStopped := true } segmentNo).handleData (source segmentNo) pipeNo =
        .ok s' ∧ Invariant fetch source maxPipelineSize (segmentNo :: numbers) s' := by
  have hstopping := h.not_stopping hat
  have hconsume : { s.setFetcher pipeNo { fetcher with m_isStopped := true } segmentNo with
      m_nReceived := s.m_nReceived + 1 }.consume (source segmentNo) =
        .ok (taken s pipeNo segmentNo fetcher (source segmentNo)) := consume_segment hpublished hlt hsmall _
  have hsegment : toSegment (fromSegment (fetch.m_store.length - 1)) = .ok (fetch.m_store.length - 1) :=
    toSegment_fromSegment (by omega)
  have hkept : (taken s pipeNo segmentNo fetcher (source segmentNo)).m_hasFinalBlockId = s.m_hasFinalBlockId := rfl
  refine ⟨_, handleData_eq hstopping hconsume (hpublished.finalBlock segmentNo hlt) hsegment, ?_⟩
  rw [hkept]
  cases hfinal : s.m_hasFinalBlockId with
  | true =>
    rw [if_pos rfl]
    exact (h.ready_taken hat hrunning hfinal hlt).finishData
  | false =>
    have hready := h.ready_learnFinalBlock hat hrunning hfinal hlt
    rw [if_neg Bool.false_ne_true, checkErrors]
    split
    · rename_i failedNo hfailed
      refine invariant_onFailure hready.delivered hready.known hready.fetching hready.going hready.quiet ?_ _
      by_contra hall
      rw [Bool.not_eq_false] at hall
      obtain ⟨entry, hfound, -⟩ := Option.map_eq_some_iff.mp hfailed
      obtain ⟨p, hp⟩ := mem_fetchers.mp (List.mem_of_find?_eq_some hfound)
      obtain ⟨hle, herror⟩ : entry.2 ≤ _ ∧ entry.1.m_hasError = true := by simpa using List.find?_some hfound
      rw [hready.known.last hready.final] at hle
      have hin := mem_of_allSegmentsReceived hready.delivered hready.known hall (by omega : entry.2 < fetch.m_store.length)
      exact hready.fetching.at_new _ _ _ hp (Or.inr herror) hin
    · exact hready.finishData

end Data

section Run

variable {fetch : Fetch} {source : ℕ → Data} {maxPipelineSize : ℕ} {numbers : List ℕ} {s : Transfer}

theorem onFetcher_cases (s : Transfer) (pipeNo : ℕ) (callback : DataFetcher → ℕ → Except Thrown Transfer) :
    s.onFetcher pipeNo callback = .ok s ∨ ∃ fetcher segmentNo, At s pipeNo fetcher segmentNo ∧
      fetcher.isRunning = true ∧ s.onFetcher pipeNo callback = callback fetcher segmentNo := by
  unfold Transfer.onFetcher
  split
  · rename_i fetcher segmentNo hat
    split
    · rename_i hrunning
      exact Or.inr ⟨fetcher, segmentNo, hat, hrunning, rfl⟩
    · exact Or.inl rfl
  · exact Or.inl rfl

theorem Invariant.settleFetcher (h : Invariant fetch source maxPipelineSize numbers s) (hpublished : Published fetch source)
    {pipeNo segmentNo : ℕ} {fetcher : DataFetcher} (hat : At s pipeNo fetcher segmentNo)
    (hrunning : fetcher.isRunning = true) {result : DataFetcher × Option Failure}
    (hresult : result.2 = none ∧ result.1.isRunning = true ∨
      ∃ failure, result.2 = some failure ∧ result.1.m_hasError = true) :
    Invariant fetch source maxPipelineSize numbers (s.settleFetcher pipeNo segmentNo result) := by
  unfold Transfer.settleFetcher
  dsimp only
  rcases hresult with ⟨hnone, hgoing⟩ | ⟨failure, hsome, -⟩
  · rw [hnone]
    exact h.setRunning hat hrunning hgoing
  · rw [hsome]
    exact h.fail hpublished hat hrunning failure

theorem Invariant.segmentNo_lt (h : Invariant fetch source maxPipelineSize numbers s) {pipeNo segmentNo : ℕ}
    {fetcher : DataFetcher} (hat : At s pipeNo fetcher segmentNo) : segmentNo < fetch.m_store.length + maxPipelineSize := by
  have hlength : numbers.length ≤ fetch.m_store.length := by
    have hsubset : numbers ⊆ List.range fetch.m_store.length := fun number hnumber =>
      List.mem_range.mpr (h.delivered.lt_store number hnumber)
    simpa using (List.subperm_of_subset h.delivered.nodup hsubset).length_le
  have hlt := h.fetching.at_lt _ _ _ hat
  have hbound := h.fetching.bound
  omega

theorem Invariant.step (h : Invariant fetch source maxPipelineSize numbers s) (hpublished : Published fetch source)
    (hsmall : fetch.m_store.length + maxPipelineSize < 18446744073709551616) (event : Event) :
    ∃ s' numbers', step fetch s event = .ok s' ∧ Invariant fetch source maxPipelineSize numbers' s' := by
  have hpositive := hpublished.nonempty
  cases event with
  | reply pipeNo =>
    rcases onFetcher_cases s pipeNo _ with hskip | ⟨fetcher, segmentNo, hat, hrunning, heq⟩
    · exact ⟨s, numbers, hskip, h⟩
    · have hsegment := h.segmentNo_lt hat
      rw [ChunkTransfer.step, heq, processSegmentInterest_segment _ _ _ (hsegment.trans hsmall)]
      by_cases hlt : segmentNo < fetch.m_store.length
      · rw [hpublished.getElem segmentNo hlt]
        obtain ⟨s', hs', hinvariant⟩ := h.reply hpublished (by omega) hat hrunning hlt
        exact ⟨s', _, hs', hinvariant⟩
      · rw [List.getElem?_eq_none (Nat.not_lt.mp hlt)]
        exact ⟨_, numbers, rfl, h.settleFetcher hpublished hat hrunning (handleNack_result _ _ hrunning)⟩
  | nack pipeNo reason =>
    rcases onFetcher_cases s pipeNo _ with hskip | ⟨fetcher, segmentNo, hat, hrunning, heq⟩
    · exact ⟨s, numbers, hskip, h⟩
    · exact ⟨_, numbers, heq, h.settleFetcher hpublished hat hrunning (handleNack_result _ _ hrunning)⟩
  | timeout pipeNo =>
    rcases onFetcher_cases s pipeNo _ with hskip | ⟨fetcher, segmentNo, hat, hrunning, heq⟩
    · exact ⟨s, numbers, hskip, h⟩
    · exact ⟨_, numbers, heq, h.settleFetcher hpublished hat hrunning (handleTimeout_result _ hrunning)⟩
  | backoff pipeNo =>
    rcases onFetcher_cases s pipeNo _ with hskip | ⟨fetcher, segmentNo, hat, hrunning, heq⟩
    · exact ⟨s, numbers, hskip, h⟩
    · exact ⟨_, numbers, heq, h.setRunning hat hrunning hrunning⟩

theorem start_eq (maxPipelineSize : ℕ) :
    start maxPipelineSize = { Transfer.initial maxPipelineSize with
      m_nextSegmentNo := maxPipelineSize
      m_segmentFetchers := (List.range maxPipelineSize).map (fun segmentNo => some (DataFetcher.fetch, segmentNo)) } := by
  have hloop (count : ℕ) : ∀ pipeNo, Transfer.doRun count pipeNo { Transfer.initial maxPipelineSize with
      m_nextSegmentNo := pipeNo
      m_segmentFetchers := (List.range pipeNo).map (fun segmentNo => some (DataFetcher.fetch, segmentNo)) ++
        List.replicate count none } = { Transfer.initial maxPipelineSize with
      m_nextSegmentNo := pipeNo + count
      m_segmentFetchers :=
        (List.range (pipeNo + count)).map (fun segmentNo => some (DataFetcher.fetch, segmentNo)) } := by
    induction count with
    | zero =>
      intro pipeNo
      simp [Transfer.doRun]
    | succ count ih =>
      intro pipeNo
      have hset : ((List.range pipeNo).map (fun segmentNo => some (DataFetcher.fetch, segmentNo)) ++
          List.replicate (count + 1) none).set pipeNo (some (DataFetcher.fetch, pipeNo)) =
            (List.range (pipeNo + 1)).map (fun segmentNo => some (DataFetcher.fetch, segmentNo)) ++
              List.replicate count none := by
        rw [List.set_append_right _ _ (by simp), List.length_map, List.length_range, Nat.sub_self, List.replicate_succ,
          List.set_cons_zero, List.range_succ, List.map_append, List.append_assoc]
        rfl
      have hfetch := ih (pipeNo + 1)
      rw [← hset, Nat.add_right_comm] at hfetch
      exact hfetch
  have hstart := hloop maxPipelineSize 0
  rw [Nat.zero_add] at hstart
  exact hstart

theorem at_start {pipeNo segmentNo : ℕ} {fetcher : DataFetcher} :
    At (start maxPipelineSize) pipeNo fetcher segmentNo ↔
      pipeNo < maxPipelineSize ∧ fetcher = DataFetcher.fetch ∧ segmentNo = pipeNo := by
  rw [At, start_eq]
  simp only [List.getElem?_map, Option.map_eq_some_iff, List.getElem?_eq_some_iff, List.length_range, List.getElem_range]
  constructor
  · rintro ⟨_, ⟨hlt, rfl⟩, heq⟩
    simp only [Option.some.injEq, Prod.mk.injEq] at heq
    exact ⟨hlt, heq.1.symm, heq.2.symm⟩
  · rintro ⟨hlt, rfl, rfl⟩
    exact ⟨segmentNo, ⟨hlt, rfl⟩, rfl⟩

theorem invariant_start (fetch : Fetch) (source : ℕ → Data) (maxPipelineSize : ℕ) :
    Invariant fetch source maxPipelineSize [] (start maxPipelineSize) := by
  have hrunning : DataFetcher.fetch.isRunning = true := rfl
  have hnext : (start maxPipelineSize).m_nextSegmentNo = maxPipelineSize := by rw [start_eq]
  have hfinal : (start maxPipelineSize).m_hasFinalBlockId = false := by
    rw [start_eq]
    rfl
  have hfailure : (start maxPipelineSize).m_hasFailure = false := by
    rw [start_eq]
    rfl
  refine ⟨⟨List.nodup_nil, fun _ hnil => absurd hnil List.not_mem_nil, ?_, ?_, ?_⟩, ⟨?_, ?_⟩,
    ⟨fun _ hnil => absurd hnil List.not_mem_nil, ?_, ?_, ?_, fun _ _ _ _ _ => List.not_mem_nil⟩, ?_,
    fun _ => ⟨?_, ?_, ?_, ?_, ?_, ?_, ?_, ?_⟩⟩
  · rw [start_eq]
    rfl
  · rw [start_eq]
    exact Waiting.empty source
  · rw [start_eq]
    rfl
  · rw [hfinal]
    exact ⟨fun hfalse => absurd hfalse Bool.false_ne_true, fun hne => absurd rfl hne⟩
  · rw [hfinal]
    exact fun hfalse => absurd hfalse Bool.false_ne_true
  · rw [hnext]
    exact Nat.le_add_left _ _
  · intro p f n hp
    obtain ⟨hlt, -, rfl⟩ := at_start.mp hp
    rwa [hnext]
  · intro p f n p' f' hp hp'
    obtain ⟨-, -, rfl⟩ := at_start.mp hp
    exact (at_start.mp hp').2.2
  · rw [start_eq]
    exact fun hfalse => absurd hfalse Bool.false_ne_true
  · rw [start_eq]
    rfl
  · exact fun p hp => ⟨_, _, at_start.mpr ⟨hp, rfl, rfl⟩⟩
  · exact fun n hn _ => Or.inr ⟨n, _, at_start.mpr ⟨hnext ▸ hn, rfl, rfl⟩⟩
  · exact fun htrue => absurd (htrue.symm.trans hfinal) (by decide)
  · intro _ p f n hp
    obtain ⟨-, rfl, -⟩ := at_start.mp hp
    exact Or.inl hrunning
  · exact fun _ htrue => absurd (htrue.symm.trans hfinal) (by decide)
  · exact fun htrue => absurd (htrue.symm.trans hfailure) (by decide)
  · exact fun htrue => absurd (htrue.symm.trans hfailure) (by decide)

theorem Invariant.run (h : Invariant fetch source maxPipelineSize numbers s) (hpublished : Published fetch source)
    (hsmall : fetch.m_store.length + maxPipelineSize < 18446744073709551616) (events : List Event) :
    ∃ s' numbers', events.foldlM (ChunkTransfer.step fetch) s = .ok s' ∧
      Invariant fetch source maxPipelineSize numbers' s' := by
  induction events generalizing s numbers with
  | nil => exact ⟨s, numbers, rfl, h⟩
  | cons event events ih =>
    obtain ⟨s', numbers', hstep, hinvariant⟩ := h.step hpublished hsmall event
    obtain ⟨s'', numbers'', hrun, hinvariant'⟩ := ih hinvariant
    refine ⟨s'', numbers'', ?_, hinvariant'⟩
    rw [List.foldlM_cons, hstep]
    exact hrun

theorem Delivered.isPrefix (h : Delivered fetch source numbers s) :
    s.m_outputStream <+: ((List.range fetch.m_store.length).map source).flatMap (fun data => data.m_content.value) := by
  have hle : s.m_nextToPrint ≤ fetch.m_store.length := by
    by_contra hlt
    have hin := h.lt_store _ (h.waiting.before _ (Nat.not_le.mp hlt))
    exact lt_irrefl _ hin
  rw [h.written, ← Nat.add_sub_cancel' hle, List.range_add, List.map_append, List.flatMap_append]
  exact List.prefix_append _ _

theorem Delivered.written_eq (h : Delivered fetch source numbers s) (hlength : fetch.m_store.length ≤ numbers.length) :
    s.m_outputStream =
      ((List.range fetch.m_store.length).map source).flatMap (fun data => data.m_content.value) := by
  rw [h.written, h.waiting.next_eq h.lt_store h.nodup hlength]

theorem Invariant.posted_cases (h : Invariant fetch source maxPipelineSize numbers s) :
    s.m_isStopping = false ∧ s.posted = [] ∨ s.allSegmentsReceived = false ∧ ∃ reason, s.posted = [reason] := by
  cases hstopping : s.m_isStopping with
  | false => exact Or.inl ⟨rfl, (h.work hstopping).quiet⟩
  | true => exact Or.inr (h.stopped hstopping).2

/-- As long as segments are missing and no failure has been reported, a fetcher is at work. -/
theorem Invariant.exists_running (h : Invariant fetch source maxPipelineSize numbers s) (hpipes : 0 < maxPipelineSize)
    (hpublished : Published fetch source) (hgoing : s.m_isStopping = false) (hrest : s.allSegmentsReceived = false) :
    ∃ pipeNo fetcher segmentNo, At s pipeNo fetcher segmentNo ∧ fetcher.isRunning = true := by
  have hwork := h.work hgoing
  have hpositive := hpublished.nonempty
  obtain ⟨first, firstNo, hfirst⟩ := hwork.filled 0 hpipes
  cases hfailure : s.m_hasFailure with
  | true =>
    cases hfinal : s.m_hasFinalBlockId with
    | true => exact absurd ((hwork.failed hfailure hfinal).symm.trans hrest) (by decide)
    | false => exact hwork.failing hfailure hfinal
  | false =>
    cases hfinal : s.m_hasFinalBlockId with
    | false =>
      rcases hwork.working hfailure _ _ _ hfirst with hrun | hin | hbeyond
      · exact ⟨0, first, firstNo, hfirst, hrun⟩
      · have hknown := h.known.known.mpr (List.ne_nil_of_mem hin)
        exact absurd (hknown.symm.trans hfinal) (by decide)
      · exact absurd (hbeyond.1.symm.trans hfinal) (by decide)
    | true =>
      rcases hwork.idle hfailure hfinal with hall | hexhausted
      · exact ⟨0, first, firstNo, hfirst, hall _ _ _ hfirst⟩
      · have hmissing : ∃ number < fetch.m_store.length, number ∉ numbers := by
          by_contra hnone
          push Not at hnone
          have hlength : fetch.m_store.length ≤ numbers.length := by
            have hsubset : List.range fetch.m_store.length ⊆ numbers := fun number hnumber =>
              hnone number (List.mem_range.mp hnumber)
            simpa using (List.subperm_of_subset List.nodup_range hsubset).length_le
          have hall := (allSegmentsReceived_iff h.delivered h.known).mpr ⟨h.known.known.mp hfinal, hlength⟩
          exact absurd (hall.symm.trans hrest) (by decide)
        obtain ⟨number, hlt, hnew⟩ := hmissing
        have hle : number ≤ s.m_lastSegmentNo := by
          rw [h.known.last hfinal]
          omega
        rcases hwork.covered number (by omega) (fun _ => hle) with hin | ⟨p, f, hat⟩
        · exact absurd hin hnew
        · rcases hwork.working hfailure _ _ _ hat with hrun | hin | hbeyond
          · exact ⟨p, f, number, hat, hrun⟩
          · exact absurd hin hnew
          · exact absurd hbeyond.2 (Nat.not_lt.mpr hle)

end Run

/-- Whatever becomes of the Interests and the Data, what the consumer has written is a
beginning of the file. Once it has counted all segments it is the file, and no failure
is reported; otherwise one failure is reported or a fetcher is at work. -/
theorem consumer_writes_file (keyChain : Data → SignatureInfo × Block) (versionedPrefix : Name) (freshnessPeriod : ℤ)
    (maxSegmentSize : SegmentSize) (file : List UInt8) (matchesData : Name → Data → Bool) (maxRetries : ℤ) (maxPipelineSize : ℕ)
    (events : List Event) (hpipes : 0 < maxPipelineSize)
    (hsmall : file.length + 1 + maxPipelineSize < 18446744073709551616) :
    ∃ s, run ⟨matchesData, versionedPrefix, populateStore keyChain versionedPrefix freshnessPeriod maxSegmentSize file,
        maxRetries⟩ maxPipelineSize events = .ok s ∧
      s.m_outputStream <+: file ∧ (s.allSegmentsReceived = true → s.m_outputStream = file ∧ s.posted = []) ∧
        (s.allSegmentsReceived = false → (∃ reason, s.posted = [reason]) ∨ s.posted = [] ∧
          ∃ pipeNo fetcher segmentNo, At s pipeNo fetcher segmentNo ∧ fetcher.isRunning = true) := by
  obtain ⟨source, hpublished, hcontent, hlength⟩ :=
    populateStore_spec keyChain versionedPrefix freshnessPeriod maxSegmentSize file matchesData maxRetries
  obtain ⟨s, numbers, hrun, hinvariant⟩ := (invariant_start _ source maxPipelineSize).run hpublished
    (lt_of_le_of_lt (Nat.add_le_add_right hlength maxPipelineSize) hsmall) events
  refine ⟨s, hrun, ?_, fun hall => ⟨?_, ?_⟩, fun hrest => ?_⟩
  · rw [← hcontent]
    exact hinvariant.delivered.isPrefix
  · rw [← hcontent]
    exact hinvariant.delivered.written_eq ((allSegmentsReceived_iff hinvariant.delivered hinvariant.known).mp hall).2
  · rcases hinvariant.posted_cases with ⟨-, hquiet⟩ | ⟨hrest, -⟩
    · exact hquiet
    · exact absurd (hall.symm.trans hrest) (by decide)
  · rcases hinvariant.posted_cases with ⟨hgoing, hquiet⟩ | ⟨-, hreported⟩
    · exact Or.inr ⟨hquiet, hinvariant.exists_running hpipes hpublished hgoing hrest⟩
    · exact Or.inl hreported

/-- Three bytes in two segments, of which the second comes first and the first is lost once. -/
theorem consumer_writes_file_retried :
    ∃ s, run ⟨fun _ _ => true, [], populateStore (fun _ => (⟨3, none, []⟩, ⟨23, []⟩)) [] 10000 ⟨2, by decide⟩ [1, 2, 3], 15⟩ 2
        [.reply 1, .timeout 0, .reply 0] = .ok s ∧
      s.m_outputStream <+: [1, 2, 3] ∧ (s.allSegmentsReceived = true → s.m_outputStream = [1, 2, 3] ∧ s.posted = []) ∧
        (s.allSegmentsReceived = false → (∃ reason, s.posted = [reason]) ∨ s.posted = [] ∧
          ∃ pipeNo fetcher segmentNo, At s pipeNo fetcher segmentNo ∧ fetcher.isRunning = true) :=
  consumer_writes_file _ [] 10000 ⟨2, by decide⟩ [1, 2, 3] _ 15 2 _ (by decide) (by decide)

end LeoNdn.ChunkTransfer
