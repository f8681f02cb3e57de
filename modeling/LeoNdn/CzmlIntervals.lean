import LeoNdn.Loops
import LeoNdn.PairRoutes
import LeoNdn.RunLengths
import Mathlib.Data.List.Dedup

/-!
The intervals in which links are shown in a CZML document: the user links of the
stations, and the links of the routes between a pair of stations.
-/

namespace LeoNdn.CzmlIntervals

open LeoNdn.Loops LeoNdn.PairRoutes LeoNdn.RunLengths

inductive Exception
  | keyError
  | indexError
  deriving DecidableEq, Repr

abbrev Link := String × String

def genInterval (last this : ℤ) : Interval := ⟨last, this⟩

structure Polyline where
  id : String
  references : List String
  rgba : List ℕ
  showIntervals : List Interval
  availability : List Interval
  deriving DecidableEq, Repr

def genPolyline (id1 id2 : String) (intervals : List Interval) (color : List ℕ) (suffix : String) : Polyline where
  id := "line-" ++ id1 ++ "-" ++ id2 ++ suffix
  references := [id1 ++ "#position", id2 ++ "#position"]
  rgba := color
  showIntervals := intervals
  availability := intervals

def isOf (link : Link) (suffix : String) (packet : Polyline) : Bool :=
  packet.id = "line-" ++ link.1 ++ "-" ++ link.2 ++ suffix &&
    packet.references = [link.1 ++ "#position", link.2 ++ "#position"]

def green : List ℕ := [0, 255, 127, 255]

def red : List ℕ := [255, 0, 0, 255]

section UserLinks

abbrev SatIntervals := String → Option (List Interval)

/-- `lastSat` and `lastTime`, which are set and reset together, and the intervals
of the satellites. -/
structure UserLinkLoop where
  last : Option (String × ℕ)
  intervals : SatIntervals

def append (intervals : SatIntervals) (satId : String) (interval : Interval) : Except Exception SatIntervals :=
  match intervals satId with
  | some shown => .ok (Function.update intervals satId (some (shown ++ [interval])))
  | none => .error .keyError

def userLinkStep (i : ℕ) (attachment : Option String) (state : UserLinkLoop) : Except Exception UserLinkLoop :=
  match attachment, state.last with
  | none, some (lastSat, lastTime) => do
    let intervals ← append state.intervals lastSat (genInterval lastTime i)
    .ok ⟨none, intervals⟩
  | none, none => .ok state
  | some satId, some (lastSat, lastTime) =>
    if satId = lastSat then .ok state
    else do
      let intervals ← append state.intervals lastSat (genInterval lastTime i)
      .ok ⟨some (satId, i), intervals⟩
  | some satId, none => .ok { state with last := some (satId, i) }

def userLinkSteps (i : ℕ) : List (Option String) → UserLinkLoop → Except Exception UserLinkLoop
  | [], state => .ok state
  | attachment :: gtAttachments, state => do
    let state ← userLinkStep i attachment state
    userLinkSteps (i + 1) gtAttachments state

/-- The body of the first loop of `addUserLinks`. -/
def gtIntervals (satDict : List String) (period : ℕ) (gtAttachments : List (Option String)) :
    Except Exception SatIntervals := do
  let state ← userLinkSteps 0 gtAttachments ⟨none, fun satId => if satId ∈ satDict then some [] else none⟩
  match state.last with
  | some (lastSat, lastTime) => append state.intervals lastSat (genInterval lastTime ((period : ℤ) - 1))
  | none => .ok state.intervals

def item {α : Type} (dict : List (String × α)) (key : String) : Except Exception α :=
  match dict.find? (fun entry => entry.1 = key) with
  | some entry => .ok entry.2
  | none => .error .keyError

def entryIntervals (satDict : List String) (period : ℕ) (entry : String × List (Option String)) :
    Except Exception (String × SatIntervals) := do
  let intervals ← gtIntervals satDict period entry.2
  .ok (entry.1, intervals)

def userPolyline (intervals : List (String × SatIntervals)) (gtId satId : String) : Except Exception Polyline := do
  let gtIntervals ← item intervals gtId
  match gtIntervals satId with
  | some shown => .ok (genPolyline gtId satId shown green "")
  | none => .error .keyError

def addUserLinks (satDict gtDict : List String) (attachments : List (String × List (Option String))) (period : ℕ) :
    Except Exception (List Polyline) := do
  let intervals ← attachments.mapM (entryIntervals satDict period)
  let packets ← gtDict.mapM fun gtId => satDict.mapM (userPolyline intervals gtId)
  .ok packets.flatten

/-- Attachments of every station, an entry for each epoch, to satellites of the
constellation; stations and satellites are keys of dictionaries. -/
structure AttachmentsOf (satDict gtDict : List String) (period : ℕ)
    (attachments : List (String × List (Option String))) : Prop where
  keys : attachments.map Prod.fst = gtDict
  nodup : gtDict.Nodup
  satNodup : satDict.Nodup
  epochs : ∀ entry ∈ attachments, entry.2.length = period
  sats : ∀ entry ∈ attachments, ∀ satId, some satId ∈ entry.2 → satId ∈ satDict

end UserLinks

section PairRoutes

abbrev LinkShow := List (Link × List Bool)

/-- The flag of a link at an epoch set, in a list that is created for a new link. -/
def setShow (period epoch : ℕ) (link : Link) : LinkShow → Except Exception LinkShow
  | [] =>
    if epoch < period then .ok [(link, (List.replicate period false).set epoch true)] else .error .indexError
  | entry :: linkShow =>
    if entry.1 = link then
      if epoch < entry.2.length then .ok ((link, entry.2.set epoch true) :: linkShow) else .error .indexError
    else do
      let linkShow ← setShow period epoch link linkShow
      .ok (entry :: linkShow)

def setShows (period epoch : ℕ) (links : List Link) (linkShow : LinkShow) : Except Exception LinkShow :=
  links.foldlM (fun linkShow link => setShow period epoch link linkShow) linkShow

def pathLinks (path : List String) : List Link := path.zip path.tail

structure PairRouteLoop where
  curLinkShow : LinkShow
  lastLinkShow : LinkShow
  lastPath : Option (List String)

/-- The flags of the links that the last path had and this one has not. The order
of the set is that in which its links come on the last path. -/
def setLastShows (period epoch : ℕ) (lastPath : Option (List String)) (path : List String) (lastLinkShow : LinkShow) :
    Except Exception LinkShow :=
  match lastPath with
  | none => .ok lastLinkShow
  | some lastPath => setShows period epoch ((pathLinks lastPath).dedup.filter (· ∉ pathLinks path)) lastLinkShow

/-- The body of the first loop of `addPairRoutes`. -/
def pairRouteStep (period : ℕ) (state : PairRouteLoop) (item : ℕ × List String) :
    Except Exception PairRouteLoop := do
  let curLinkShow ← setShows period item.1 (pathLinks item.2) state.curLinkShow
  let lastLinkShow ← setLastShows period item.1 state.lastPath item.2 state.lastLinkShow
  .ok ⟨curLinkShow, lastLinkShow, some item.2⟩

/-- The time since which the link is shown, if it is, and the intervals before. -/
def showStep (i : ℕ) (flag : Bool) (state : Option ℕ × List Interval) : Option ℕ × List Interval :=
  match flag, state.1 with
  | true, some _ => state
  | false, none => state
  | false, some lastTime => (none, state.2 ++ [genInterval lastTime i])
  | true, none => (some i, state.2)

def showSteps (i : ℕ) : List Bool → Option ℕ × List Interval → Option ℕ × List Interval
  | [], state => state
  | flag :: flags, state => showSteps (i + 1) flags (showStep i flag state)

variable (isoformat : ℤ → String)

def intervalText (interval : Interval) : String := isoformat interval.start ++ "/" ++ isoformat interval.stop

def sortIntervals (intervals : List Interval) : List Interval :=
  intervals.mergeSort fun interval interval' => intervalText isoformat interval ≤ intervalText isoformat interval'

def routeIntervals (period : ℕ) (flags : List Bool) : List Interval :=
  let state := showSteps 0 flags (none, [])
  sortIntervals isoformat (match state.1 with
    | some lastTime => state.2 ++ [genInterval lastTime ((period : ℤ) - 1)]
    | none => state.2)

def linkIntervals (period : ℕ) (linkShow : LinkShow) : List (Link × List Interval) :=
  linkShow.map fun entry => (entry.1, routeIntervals isoformat period entry.2)

def pairPolylines (shown : List (Link × List Interval)) (color : List ℕ) (suffix : String) : List Polyline :=
  shown.map fun entry => genPolyline entry.1.1 entry.1.2 entry.2 color suffix

def addPairRoutes (routes : List (ℕ × List String)) (period : ℕ) : Except Exception (List Polyline) := do
  let state ← routes.foldlM (pairRouteStep period) ⟨[], [], none⟩
  .ok (pairPolylines (linkIntervals isoformat period state.curLinkShow) green "" ++
    pairPolylines (linkIntervals isoformat period state.lastLinkShow) red "-last")

end PairRoutes

def OnPath (routes : List (ℕ × List String)) (t : ℕ) (link : Link) : Prop :=
  ∃ path, (t, path) ∈ routes ∧ link ∈ pathLinks path

/-- The link is on the path that comes just before that of the epoch in the dictionary,
and not on the latter. -/
def LeftPath (routes : List (ℕ × List String)) (t : ℕ) (link : Link) : Prop :=
  ∃ last this, [last, this] <:+: routes ∧ t = this.1 ∧ link ∈ pathLinks last.2 ∧ link ∉ pathLinks this.2

section UserIntervals

variable {satDict gtDict : List String} {period : ℕ} {scan : Scan String} {state : UserLinkLoop}

structure Follows (satDict : List String) (scan : Scan String) (state : UserLinkLoop) : Prop where
  last : state.last = scan.current
  known : ∀ satId lastTime, scan.current = some (satId, lastTime) → satId ∈ satDict
  intervals : ∀ satId, state.intervals satId = if satId ∈ satDict then some (intervalsOf satId scan.closed) else none

theorem Follows.append (h : Follows satDict scan state) {lastSat : String} {lastTime : ℕ}
    (hlast : scan.current = some (lastSat, lastTime)) (stop : ℤ) :
    ∃ intervals, append state.intervals lastSat (genInterval lastTime stop) = .ok intervals ∧
      ∀ satId, intervals satId = if satId ∈ satDict then some (intervalsOf satId (scan.close stop)) else none := by
  have hknown := h.known lastSat lastTime hlast
  refine ⟨_, by rw [CzmlIntervals.append, h.intervals, if_pos hknown], fun satId => ?_⟩
  rw [Function.update_apply, Scan.close, hlast]
  simp only [intervalsOf, List.filterMap_append]
  by_cases heq : satId = lastSat
  · subst heq
    rw [if_pos rfl, if_pos hknown]
    simp [genInterval]
  · rw [if_neg heq, h.intervals]
    simp [intervalsOf, Ne.symm heq]

theorem Follows.step (h : Follows satDict scan state) (i : ℕ) {attachment : Option String}
    (hsat : ∀ satId, attachment = some satId → satId ∈ satDict) :
    ∃ state', userLinkStep i attachment state = .ok state' ∧ Follows satDict (scan.next i attachment) state' := by
  obtain ⟨last, intervals⟩ := state
  obtain rfl : last = scan.current := h.last
  have hnew : ∀ satId lastTime, attachment.map (fun satId => (satId, i)) = some (satId, lastTime) →
      satId ∈ satDict := by
    intro satId lastTime hmap
    obtain ⟨satId', hattachment, heq⟩ := Option.map_eq_some_iff.mp hmap
    obtain ⟨rfl, rfl⟩ := Prod.mk.inj heq
    exact hsat satId' hattachment
  rw [Scan.next]
  split
  · rename_i hsame
    refine ⟨⟨scan.current, intervals⟩, ?_, h⟩
    subst hsame
    cases scan.current with
    | none => rfl
    | some current => exact if_pos rfl
  · rename_i hother
    cases hcurrent : scan.current with
    | none =>
      refine ⟨⟨attachment.map (fun satId => (satId, i)), intervals⟩, ?_, rfl, hnew, ?_⟩
      · rw [hcurrent] at hother
        cases attachment with
        | none => exact absurd rfl hother
        | some satId => rfl
      · rw [close_none hcurrent]
        exact h.intervals
    | some current =>
      obtain ⟨lastSat, lastTime⟩ := current
      obtain ⟨intervals', happend, hintervals⟩ := h.append hcurrent i
      refine ⟨⟨attachment.map (fun satId => (satId, i)), intervals'⟩, ?_, rfl, hnew, hintervals⟩
      rw [hcurrent] at hother
      cases attachment with
      | none =>
        simp only [userLinkStep, happend]
        rfl
      | some satId =>
        simp only [userLinkStep, happend]
        rw [if_neg fun heq => hother (by rw [heq]; rfl)]
        rfl

theorem Follows.steps (h : Follows satDict scan state) (i : ℕ) {gtAttachments : List (Option String)}
    (hsats : ∀ satId, some satId ∈ gtAttachments → satId ∈ satDict) :
    ∃ state', userLinkSteps i gtAttachments state = .ok state' ∧
      Follows satDict (scan.along i gtAttachments) state' := by
  induction gtAttachments generalizing i scan state with
  | nil => exact ⟨state, rfl, h⟩
  | cons attachment gtAttachments ih =>
    obtain ⟨state₁, hstep, h₁⟩ := h.step i fun satId hattachment => hsats satId (hattachment ▸ List.mem_cons_self)
    obtain ⟨state₂, hsteps, h₂⟩ := ih h₁ (i + 1) fun satId hmem => hsats satId (List.mem_cons_of_mem _ hmem)
    exact ⟨state₂, by rw [userLinkSteps, hstep]; exact hsteps, h₂⟩

def shownIntervals (period : ℕ) (gtAttachments : List (Option String)) (satId : String) : List Interval :=
  intervalsOf satId ((Scan.start.along 0 gtAttachments).close ((period : ℤ) - 1))

def knownIntervals (satDict : List String) (period : ℕ) (gtAttachments : List (Option String)) : SatIntervals :=
  fun satId => if satId ∈ satDict then some (shownIntervals period gtAttachments satId) else none

theorem gtIntervals_eq {gtAttachments : List (Option String)}
    (hsats : ∀ satId, some satId ∈ gtAttachments → satId ∈ satDict) :
    gtIntervals satDict period gtAttachments = .ok (knownIntervals satDict period gtAttachments) := by
  have hstart : Follows satDict Scan.start ⟨none, fun satId => if satId ∈ satDict then some [] else none⟩ :=
    ⟨rfl, fun _ _ hcurrent => (nomatch hcurrent), fun _ => rfl⟩
  obtain ⟨state, hsteps, hstate⟩ := hstart.steps 0 hsats
  rw [gtIntervals, hsteps]
  change (match state.last with | some (lastSat, lastTime) => _ | none => _) = _
  rw [hstate.last]
  cases hcurrent : (Scan.start.along 0 gtAttachments).current with
  | none =>
    refine congrArg Except.ok (funext fun satId => ?_)
    rw [hstate.intervals, knownIntervals, shownIntervals, close_none hcurrent]
  | some current =>
    obtain ⟨lastSat, lastTime⟩ := current
    obtain ⟨intervals, happend, hintervals⟩ := hstate.append hcurrent ((period : ℤ) - 1)
    exact happend.trans (congrArg Except.ok (funext hintervals))

theorem shownIntervals_spec {gtAttachments : List (Option String)} (hepochs : gtAttachments.length = period)
    (satId : String) : InOrder (shownIntervals period gtAttachments satId) ∧ ∀ t : ℕ, (t : ℤ) < (period : ℤ) - 1 →
      ((∃ interval ∈ shownIntervals period gtAttachments satId, interval.Contains t) ↔
        gtAttachments[t]? = some (some satId)) := by
  have hcovers : Covers _ ((period : ℤ) - 1) _ := (scanned gtAttachments).covers (by omega) (by omega)
  refine ⟨(hcovers.intervalsOf satId).1, fun t ht => ?_⟩
  rw [shownIntervals, (hcovers.intervalsOf satId).2.2 t ht, Option.join_eq_some_iff]

theorem item_of_mem {α β : Type} {dict : List (String × α)} (h : (dict.map Prod.fst).Nodup) {entry : String × α}
    (hmem : entry ∈ dict) (f : α → β) :
    item (dict.map fun entry => (entry.1, f entry.2)) entry.1 = .ok (f entry.2) := by
  induction dict with
  | nil => cases hmem
  | cons first dict ih =>
    rw [List.map_cons, List.nodup_cons] at h
    rw [item, List.map_cons]
    rcases List.mem_cons.mp hmem with rfl | hrest
    · rw [List.find?_cons_of_pos (by simp)]
    · have hne : first.1 ≠ entry.1 := fun heq => h.1 (heq ▸ List.mem_map_of_mem hrest)
      rw [List.find?_cons_of_neg (by simpa using hne)]
      exact ih h.2 hrest

theorem addUserLinks_eq {attachments : List (String × List (Option String))}
    (h : AttachmentsOf satDict gtDict period attachments) : addUserLinks satDict gtDict attachments period =
      .ok (attachments.flatMap fun entry => satDict.map fun satId =>
        genPolyline entry.1 satId (shownIntervals period entry.2 satId) green "") := by
  have hintervals : attachments.mapM (entryIntervals satDict period) =
      .ok (attachments.map fun entry => (entry.1, knownIntervals satDict period entry.2)) := by
    refine mapM_ok fun entry hmem => ?_
    rw [entryIntervals, gtIntervals_eq (h.sats entry hmem)]
    rfl
  have hpackets : ∀ entry ∈ attachments, ∀ satId ∈ satDict,
      userPolyline (attachments.map fun entry => (entry.1, knownIntervals satDict period entry.2)) entry.1 satId =
        .ok (genPolyline entry.1 satId (shownIntervals period entry.2 satId) green "") := by
    intro entry hmem satId hsat
    rw [userPolyline, item_of_mem (h.keys ▸ h.nodup) hmem (knownIntervals satDict period)]
    simp only [bind, Except.bind, knownIntervals, if_pos hsat]
  rw [addUserLinks, hintervals, ← h.keys]
  simp only [bind, Except.bind, List.mapM_map, Function.comp_def]
  rw [mapM_ok fun entry hmem => mapM_ok (hpackets entry hmem)]
  rfl

theorem isOf_genPolyline {link : Link} {id1 id2 suffix suffix' : String} (intervals : List Interval) (color : List ℕ) :
    isOf link suffix' (genPolyline id1 id2 intervals color suffix) = true ↔ (id1, id2) = link ∧ suffix = suffix' := by
  simp only [isOf, genPolyline, Bool.and_eq_true, decide_eq_true_eq, List.cons.injEq, String.append_left_inj, and_true,
    Prod.ext_iff]
  constructor
  · rintro ⟨hid, rfl, rfl⟩
    exact ⟨⟨rfl, rfl⟩, (String.append_right_inj _).mp (of_decide_eq_true hid)⟩
  · rintro ⟨⟨rfl, rfl⟩, rfl⟩
    exact ⟨decide_eq_true rfl, rfl, rfl⟩

theorem filter_flatMap_of_mem {α β : Type} {p : β → Bool} {f : α → List β} {l : List α} (hnodup : l.Nodup) {a : α}
    (ha : a ∈ l) (hother : ∀ b ∈ l, b ≠ a → ∀ x ∈ f b, p x = false) : (l.flatMap f).filter p = (f a).filter p := by
  obtain ⟨before, after, rfl⟩ := List.append_of_mem ha
  rw [List.nodup_middle, List.nodup_cons] at hnodup
  have hnone : ∀ rest : List α, (∀ b ∈ rest, b ∈ before ++ a :: after ∧ b ≠ a) → (rest.flatMap f).filter p = [] := by
    intro rest hrest
    refine List.filter_eq_nil_iff.mpr fun x hx => ?_
    obtain ⟨b, hb, hxb⟩ := List.mem_flatMap.mp hx
    rw [hother b (hrest b hb).1 (hrest b hb).2 x hxb]
    exact Bool.false_ne_true
  rw [List.flatMap_append, List.flatMap_cons, List.filter_append, List.filter_append, hnone before, hnone after,
    List.nil_append, List.append_nil]
  · exact fun b hb => ⟨by simp [hb], fun heq => hnodup.1 (List.mem_append_right _ (heq ▸ hb))⟩
  · exact fun b hb => ⟨by simp [hb], fun heq => hnodup.1 (List.mem_append_left _ (heq ▸ hb))⟩

/-- Each link has one packet, with the intervals in which the station is attached to
the satellite. -/
theorem addUserLinks_shows {attachments : List (String × List (Option String))}
    (h : AttachmentsOf satDict gtDict period attachments) :
    ∃ packets, addUserLinks satDict gtDict attachments period = .ok packets ∧
      ∀ entry ∈ attachments, ∀ satId ∈ satDict, ∃ packet, packets.filter (isOf (entry.1, satId) "") = [packet] ∧
        InOrder packet.showIntervals ∧ packet.showIntervals.Pairwise (fun interval interval' =>
          ∀ t, ¬ (interval.Contains t ∧ interval'.Contains t)) ∧
        ∀ t : ℕ, (t : ℤ) < (period : ℤ) - 1 →
          ((∃ interval ∈ packet.showIntervals, interval.Contains t) ↔ entry.2[t]? = some (some satId)) := by
  refine ⟨_, addUserLinks_eq h, fun entry hentry satId hsat => ?_⟩
  obtain ⟨horder, hcontains⟩ := shownIntervals_spec (h.epochs entry hentry) satId
  refine ⟨genPolyline entry.1 satId (shownIntervals period entry.2 satId) green "", ?_,
    horder, horder.disjoint, hcontains⟩
  have hkeys : attachments.Nodup := (h.keys ▸ h.nodup : (attachments.map Prod.fst).Nodup).of_map
  have hkey : ∀ other ∈ attachments, other ≠ entry → other.1 ≠ entry.1 := fun other hother hne heq =>
    hne (List.inj_on_of_nodup_map (h.keys ▸ h.nodup) hother hentry heq)
  have hnot : ∀ {id1 id2 shown}, ¬ (id1, id2) = (entry.1, satId) →
      isOf (entry.1, satId) "" (genPolyline id1 id2 shown green "") = false := fun hne =>
    Bool.eq_false_iff.mpr fun hof => hne ((isOf_genPolyline _ _).mp hof).1
  rw [filter_flatMap_of_mem hkeys hentry, ← List.flatMap_pure_eq_map, filter_flatMap_of_mem h.satNodup hsat]
  · exact List.filter_cons_of_pos ((isOf_genPolyline _ _).mpr ⟨rfl, rfl⟩)
  · intro other _ hne packet hpacket
    obtain rfl := List.mem_singleton.mp hpacket
    exact hnot fun heq => hne (Prod.mk.inj heq).2
  · intro other hother hne packet hpacket
    obtain ⟨other', -, rfl⟩ := List.mem_map.mp hpacket
    exact hnot fun heq => hkey other hother hne (Prod.mk.inj heq).1

theorem addUserLinks_shows_two :
    ∃ packets, addUserLinks ["a", "b"] ["g"] [("g", [some "a", none, some "b", some "b"])] 4 = .ok packets ∧
      ∀ entry ∈ [("g", [some "a", none, some "b", some "b"])], ∀ satId ∈ ["a", "b"],
        ∃ packet, packets.filter (isOf (entry.1, satId) "") = [packet] ∧
          InOrder packet.showIntervals ∧ packet.showIntervals.Pairwise (fun interval interval' =>
            ∀ t, ¬ (interval.Contains t ∧ interval'.Contains t)) ∧
          ∀ t : ℕ, (t : ℤ) < ((4 : ℕ) : ℤ) - 1 →
            ((∃ interval ∈ packet.showIntervals, interval.Contains t) ↔ entry.2[t]? = some (some satId)) :=
  addUserLinks_shows ⟨rfl, by decide, by decide, by decide, by
    intro entry hmem satId hsat
    obtain rfl := List.mem_singleton.mp hmem
    simpa [or_comm, eq_comm] using hsat⟩

end UserIntervals

section RouteIntervals

variable {period epoch : ℕ} {P : ℕ → Link → Prop} {link : Link} {linkShow : LinkShow}

structure Shows (period : ℕ) (P : ℕ → Link → Prop) (linkShow : LinkShow) : Prop where
  nodup : (linkShow.map Prod.fst).Nodup
  length : ∀ entry ∈ linkShow, entry.2.length = period
  flags : ∀ entry ∈ linkShow, ∀ t, entry.2[t]? = some true ↔ P t entry.1
  keys : ∀ t link, P t link → link ∈ linkShow.map Prod.fst

theorem setShow_spec (hnodup : (linkShow.map Prod.fst).Nodup) (hlength : ∀ entry ∈ linkShow, entry.2.length = period)
    (hepoch : epoch < period) (link : Link) : ∃ linkShow', setShow period epoch link linkShow = .ok linkShow' ∧
      (∀ other, other ∈ linkShow'.map Prod.fst ↔ other = link ∨ other ∈ linkShow.map Prod.fst) ∧
      (linkShow'.map Prod.fst).Nodup ∧ ∀ entry' ∈ linkShow', (entry' ∈ linkShow ∧ entry'.1 ≠ link) ∨
        (entry'.1 = link ∧ ∃ flags, entry'.2 = flags.set epoch true ∧
          ((link, flags) ∈ linkShow ∨ (link ∉ linkShow.map Prod.fst ∧ flags = List.replicate period false))) := by
  induction linkShow with
  | nil =>
    refine ⟨_, if_pos hepoch, fun other => by simp, List.nodup_singleton _, fun entry' hmem => Or.inr ?_⟩
    obtain rfl := List.mem_singleton.mp hmem
    exact ⟨rfl, _, rfl, Or.inr ⟨List.not_mem_nil, rfl⟩⟩
  | cons entry linkShow ih =>
    rw [List.map_cons, List.nodup_cons] at hnodup
    rw [setShow]
    by_cases heq : entry.1 = link
    · subst heq
      rw [if_pos rfl, if_pos (by rw [hlength entry List.mem_cons_self]; exact hepoch)]
      refine ⟨_, rfl, fun other => by simp, by simpa using hnodup, fun entry' hmem => ?_⟩
      rcases List.mem_cons.mp hmem with rfl | hrest
      · exact Or.inr ⟨rfl, entry.2, rfl, Or.inl List.mem_cons_self⟩
      · exact Or.inl ⟨List.mem_cons_of_mem _ hrest, fun heq => hnodup.1 (heq ▸ List.mem_map_of_mem hrest)⟩
    · obtain ⟨linkShow', hset, hkeys, hnodup', hentries⟩ :=
        ih hnodup.2 fun entry' hmem => hlength entry' (List.mem_cons_of_mem _ hmem)
      rw [if_neg heq, hset]
      refine ⟨_, rfl, fun other => ?_, ?_, fun entry' hmem => ?_⟩
      · rw [List.map_cons, List.mem_cons, hkeys, List.map_cons, List.mem_cons, or_left_comm]
      · rw [List.map_cons, List.nodup_cons, hkeys, not_or]
        exact ⟨⟨heq, hnodup.1⟩, hnodup'⟩
      · rcases List.mem_cons.mp hmem with rfl | hrest
        · exact Or.inl ⟨List.mem_cons_self, heq⟩
        · refine (hentries entry' hrest).imp (fun h => ⟨List.mem_cons_of_mem _ h.1, h.2⟩) ?_
          rintro ⟨hlink, flags, hflags, hold | ⟨hnew, hreplicate⟩⟩
          · exact ⟨hlink, flags, hflags, Or.inl (List.mem_cons_of_mem _ hold)⟩
          · refine ⟨hlink, flags, hflags, Or.inr ⟨?_, hreplicate⟩⟩
            rw [List.map_cons, List.mem_cons, not_or]
            exact ⟨Ne.symm heq, hnew⟩

theorem Shows.setShow (h : Shows period P linkShow) (hepoch : epoch < period) (link : Link) :
    ∃ linkShow', setShow period epoch link linkShow = .ok linkShow' ∧
      Shows period (fun t other => P t other ∨ (t = epoch ∧ other = link)) linkShow' := by
  obtain ⟨linkShow', hset, hkeys, hnodup, hentries⟩ := setShow_spec h.nodup h.length hepoch link
  have hold : ∀ flags, ((link, flags) ∈ linkShow ∨
      (link ∉ linkShow.map Prod.fst ∧ flags = List.replicate period false)) →
      flags.length = period ∧ ∀ t, flags[t]? = some true ↔ P t link := by
    rintro flags (hmem | ⟨hnew, rfl⟩)
    · exact ⟨h.length _ hmem, h.flags _ hmem⟩
    · refine ⟨List.length_replicate, fun t => iff_of_false ?_ fun hP => hnew (h.keys t link hP)⟩
      rw [List.getElem?_replicate]
      split <;> simp
  refine ⟨linkShow', hset, hnodup, fun entry' hmem => ?_, fun entry' hmem t => ?_, fun t other hother => ?_⟩
  · obtain ⟨hmem, -⟩ | ⟨-, flags, hflags, hcase⟩ := hentries entry' hmem
    · exact h.length entry' hmem
    · rw [hflags, List.length_set, (hold flags hcase).1]
  · obtain ⟨hmem, hne⟩ | ⟨heq, flags, hflags, hcase⟩ := hentries entry' hmem
    · rw [h.flags entry' hmem t, or_iff_left fun hboth => hne hboth.2]
    · obtain ⟨hlength, hP⟩ := hold flags hcase
      rw [hflags, heq, List.getElem?_set, ← hP t]
      by_cases ht : epoch = t
      · rw [if_pos ht, if_pos (by omega)]
        exact iff_of_true rfl (Or.inr ⟨ht.symm, rfl⟩)
      · rw [if_neg ht, or_iff_left fun hboth => ht hboth.1.symm]
  · rw [hkeys]
    exact hother.elim (fun hP => Or.inr (h.keys t other hP)) fun hboth => Or.inl hboth.2

theorem Shows.congr {Q : ℕ → Link → Prop} (h : Shows period P linkShow) (hPQ : ∀ t link, P t link ↔ Q t link) :
    Shows period Q linkShow := by
  obtain rfl : P = Q := funext fun t => funext fun link => propext (hPQ t link)
  exact h

theorem Shows.setShows (h : Shows period P linkShow) (hepoch : epoch < period) (links : List Link) :
    ∃ linkShow', setShows period epoch links linkShow = .ok linkShow' ∧
      Shows period (fun t other => P t other ∨ (t = epoch ∧ other ∈ links)) linkShow' := by
  induction links generalizing P linkShow with
  | nil => exact ⟨linkShow, rfl, h.congr fun t other => by simp⟩
  | cons link links ih =>
    obtain ⟨linkShow₁, hset, h₁⟩ := h.setShow hepoch link
    obtain ⟨linkShow₂, hsets, h₂⟩ := ih h₁
    refine ⟨linkShow₂, ?_, h₂.congr fun t other => ?_⟩
    · rw [CzmlIntervals.setShows, List.foldlM_cons, hset]
      exact hsets
    · rw [List.mem_cons, or_assoc, ← and_or_left]

end RouteIntervals

section Routes

variable {period : ℕ} {routes : List (ℕ × List String)} {item : ℕ × List String} {link : Link} {t : ℕ}

theorem onPath_append : OnPath (routes ++ [item]) t link ↔
    OnPath routes t link ∨ (t = item.1 ∧ link ∈ pathLinks item.2) := by
  obtain ⟨epoch, path⟩ := item
  simp only [OnPath, List.mem_append, List.mem_singleton, Prod.mk.injEq]
  constructor
  · rintro ⟨path', hmem | ⟨rfl, rfl⟩, hlink⟩
    · exact Or.inl ⟨path', hmem, hlink⟩
    · exact Or.inr ⟨rfl, hlink⟩
  · rintro (⟨path', hmem, hlink⟩ | ⟨rfl, hlink⟩)
    · exact ⟨path', Or.inl hmem, hlink⟩
    · exact ⟨path, Or.inr ⟨rfl, rfl⟩, hlink⟩

theorem leftPath_append : LeftPath (routes ++ [item]) t link ↔ LeftPath routes t link ∨
    (t = item.1 ∧ (∃ last, routes.getLast? = some last ∧ link ∈ pathLinks last.2) ∧ link ∉ pathLinks item.2) := by
  have hpair : ∀ last this, [last, this] <:+: routes ++ [item] ↔
      [last, this] <:+: routes ∨ (routes.getLast? = some last ∧ this = item) := by
    intro last this
    rw [List.infix_concat_iff, show [last, this] = [last] ++ [this] from rfl, List.suffix_concat_iff, or_comm]
    refine or_congr_right ⟨?_, ?_⟩
    · rintro (hnil | ⟨front, heq, hsuffix⟩)
      · cases hnil
      · obtain ⟨rfl, hthis⟩ := List.append_inj' heq rfl
        exact ⟨List.singleton_suffix_iff_getLast?_eq_some.mp hsuffix, (List.cons.inj hthis).1⟩
    · rintro ⟨hlast, rfl⟩
      exact Or.inr ⟨[last], rfl, List.singleton_suffix_iff_getLast?_eq_some.mpr hlast⟩
  simp only [LeftPath, hpair]
  constructor
  · rintro ⟨last, this, hold | ⟨hlast, rfl⟩, ht, hleft, hnot⟩
    · exact Or.inl ⟨last, this, hold, ht, hleft, hnot⟩
    · exact Or.inr ⟨ht, ⟨last, hlast, hleft⟩, hnot⟩
  · rintro (⟨last, this, hold, hrest⟩ | ⟨ht, ⟨last, hlast, hleft⟩, hnot⟩)
    · exact ⟨last, this, Or.inl hold, hrest⟩
    · exact ⟨last, item, Or.inr ⟨hlast, rfl⟩, ht, hleft, hnot⟩

structure Walked (period : ℕ) (routes : List (ℕ × List String)) (state : PairRouteLoop) : Prop where
  cur : Shows period (OnPath routes) state.curLinkShow
  last : Shows period (LeftPath routes) state.lastLinkShow
  path : state.lastPath = routes.getLast?.map Prod.snd

theorem Walked.step {state : PairRouteLoop} (hepoch : item.1 < period) (h : Walked period routes state) :
    ∃ state', pairRouteStep period state item = .ok state' ∧ Walked period (routes ++ [item]) state' := by
  obtain ⟨curLinkShow, hcur, hcurShows⟩ := h.cur.setShows hepoch (pathLinks item.2)
  obtain ⟨lastLinkShow, hlast, hlastShows⟩ : ∃ lastLinkShow,
      setLastShows period item.1 state.lastPath item.2 state.lastLinkShow = .ok lastLinkShow ∧
      Shows period (fun t link => LeftPath routes t link ∨ (t = item.1 ∧
        (∃ last, routes.getLast? = some last ∧ link ∈ pathLinks last.2) ∧ link ∉ pathLinks item.2)) lastLinkShow := by
    rw [h.path]
    cases routes.getLast? with
    | none => exact ⟨state.lastLinkShow, rfl, h.last.congr fun t link => by simp⟩
    | some last =>
      obtain ⟨lastLinkShow, hlast, hlastShows⟩ := h.last.setShows hepoch
        ((pathLinks last.2).dedup.filter (· ∉ pathLinks item.2))
      exact ⟨lastLinkShow, hlast, hlastShows.congr fun t link => by simp⟩
  refine ⟨⟨curLinkShow, lastLinkShow, some item.2⟩, ?_, ?_, ?_, ?_⟩
  · simp only [pairRouteStep, hcur, hlast, bind, Except.bind]
  · exact hcurShows.congr fun t link => onPath_append.symm
  · exact hlastShows.congr fun t link => leftPath_append.symm
  · rw [List.getLast?_concat]
    rfl

theorem walked (hepochs : ∀ item ∈ routes, item.1 < period) :
    ∃ state, routes.foldlM (pairRouteStep period) ⟨[], [], none⟩ = .ok state ∧ Walked period routes state := by
  induction routes using List.reverseRecOn with
  | nil =>
    have hnone : ∀ P : ℕ → Link → Prop, (∀ t link, ¬ P t link) → Shows period P [] := fun P hP =>
      ⟨List.nodup_nil, fun _ hmem => (nomatch hmem), fun _ hmem => (nomatch hmem), fun t link h => absurd h (hP t link)⟩
    refine ⟨_, rfl, hnone _ ?_, hnone _ ?_, rfl⟩
    · rintro t link ⟨path, hmem, -⟩
      cases hmem
    · rintro t link ⟨last, this, hinfix, -⟩
      cases List.infix_nil.mp hinfix
  | append_singleton routes item ih =>
    obtain ⟨state, hrun, hstate⟩ := ih fun other hother => hepochs other (List.mem_append_left _ hother)
    obtain ⟨state', hstep, hstate'⟩ := hstate.step (hepochs item (List.mem_append_right _ List.mem_cons_self))
    refine ⟨state', ?_, hstate'⟩
    rw [List.foldlM_append, hrun]
    simp only [bind, Except.bind, List.foldlM_cons, hstep, List.foldlM_nil]
    rfl

theorem LeftPath.not_onPath (hnodup : (routes.map Prod.fst).Nodup) (h : LeftPath routes t link) :
    ¬ OnPath routes t link := by
  obtain ⟨last, this, hinfix, rfl, -, hnot⟩ := h
  rintro ⟨path, hmem, hlink⟩
  have hthis : this ∈ routes := hinfix.subset (List.mem_cons_of_mem _ List.mem_cons_self)
  have heq : (this.1, path) = this := List.inj_on_of_nodup_map hnodup hmem hthis rfl
  rw [← heq] at hnot
  exact hnot hlink

theorem leftPath_iff (hkeys : routes.map Prod.fst = List.range period) (ht : t < period) :
    LeftPath routes t link ↔ ∃ u, t = u + 1 ∧ OnPath routes u link ∧ ¬ OnPath routes t link := by
  have hlength : routes.length = period := by
    rw [← List.length_map (f := Prod.fst), hkeys, List.length_range]
  have hepoch : ∀ i (hi : i < routes.length), routes[i].1 = i := by
    intro i hi
    have hget : (routes.map Prod.fst)[i]? = some i := by rw [hkeys, List.getElem?_range (by omega)]
    rw [List.getElem?_map, List.getElem?_eq_getElem hi] at hget
    exact Option.some.inj hget
  have hnodup : (routes.map Prod.fst).Nodup := hkeys ▸ List.nodup_range
  constructor
  · intro hleft
    have hnot := hleft.not_onPath hnodup
    obtain ⟨last, this, ⟨before, after, rfl⟩, rfl, hlink, -⟩ := hleft
    have hlast := hepoch before.length (by simp)
    have hthis := hepoch (before.length + 1) (by simp)
    simp only [List.append_assoc, List.cons_append, List.nil_append, le_refl, List.getElem_append_right,
      Nat.sub_self, List.getElem_cons_zero, Nat.le_add_right, Nat.add_sub_cancel_left, List.getElem_cons_succ] at hlast hthis
    exact ⟨before.length, hthis, ⟨last.2, by rw [← hlast]; simp, hlink⟩, hnot⟩
  · rintro ⟨u, rfl, ⟨path, hmem, hlink⟩, hnot⟩
    have hlast : (u, path) = routes[u] := List.inj_on_of_nodup_map hnodup hmem (List.getElem_mem _) (hepoch u (by omega)).symm
    refine ⟨routes[u], routes[u + 1], ⟨routes.take u, routes.drop (u + 2), ?_⟩, (hepoch (u + 1) (by omega)).symm,
      by rw [← hlast]; exact hlink, fun hthis => hnot ⟨_, ?_, hthis⟩⟩
    · rw [List.append_assoc, List.cons_append, List.cons_append, List.nil_append, List.getElem_cons_drop,
        List.getElem_cons_drop, List.take_append_drop]
    · have hmem' : routes[u + 1] ∈ routes := List.getElem_mem (by omega)
      have hfst := hepoch (u + 1) (by omega)
      generalize routes[u + 1] = this at hmem' hfst
      rwa [← hfst]

end Routes

section ShownLinks

def shownAt (flag : Bool) : Option Unit := if flag then some () else none

structure Tracks (scan : Scan Unit) (state : Option ℕ × List Interval) : Prop where
  since : state.1 = scan.current.map Prod.snd
  intervals : state.2 = intervalsOf () scan.closed

variable {scan : Scan Unit} {state : Option ℕ × List Interval}

theorem Tracks.close (h : Tracks scan state) {lastTime : ℕ} (hsince : state.1 = some lastTime) (stop : ℤ) :
    state.2 ++ [genInterval lastTime stop] = intervalsOf () (scan.close stop) := by
  rw [h.since] at hsince
  obtain ⟨⟨flag, since⟩, hcurrent, rfl⟩ := Option.map_eq_some_iff.mp hsince
  rw [Scan.close, hcurrent, h.intervals]
  simp [intervalsOf, genInterval]

theorem Tracks.step (h : Tracks scan state) (i : ℕ) (flag : Bool) :
    Tracks (scan.next i (shownAt flag)) (showStep i flag state) := by
  obtain ⟨since, intervals⟩ := state
  rw [Scan.next]
  cases flag with
  | true =>
    cases hcurrent : scan.current with
    | none =>
      obtain rfl : since = none := by simpa [hcurrent] using h.since
      rw [if_neg (by simp [shownAt]), close_none hcurrent]
      exact ⟨rfl, h.intervals⟩
    | some current =>
      obtain rfl : since = some current.2 := by simpa [hcurrent] using h.since
      exact h
  | false =>
    cases hcurrent : scan.current with
    | none =>
      obtain rfl : since = none := by simpa [hcurrent] using h.since
      exact h
    | some current =>
      obtain rfl : since = some current.2 := by simpa [hcurrent] using h.since
      rw [if_neg (by simp [shownAt])]
      exact ⟨rfl, h.close rfl i⟩

theorem Tracks.steps (h : Tracks scan state) (i : ℕ) (flags : List Bool) :
    Tracks (scan.along i (flags.map shownAt)) (showSteps i flags state) := by
  induction flags generalizing i scan state with
  | nil => exact h
  | cons flag flags ih => exact ih (h.step i flag) (i + 1)

variable (isoformat : ℤ → String) {period : ℕ}

theorem routeIntervals_perm (flags : List Bool) : (routeIntervals isoformat period flags).Perm
    (intervalsOf () ((Scan.start.along 0 (flags.map shownAt)).close ((period : ℤ) - 1))) := by
  have hstart : Tracks Scan.start (none, []) := ⟨rfl, rfl⟩
  have htracks := hstart.steps 0 flags
  refine (List.mergeSort_perm _ _).trans ?_
  cases hsince : (showSteps 0 flags (none, [])).1 with
  | none =>
    have hcurrent : (Scan.start.along 0 (flags.map shownAt)).current = none := by
      rw [← Option.map_eq_none_iff, ← htracks.since, hsince]
    rw [close_none hcurrent, ← htracks.intervals]
  | some lastTime => rw [← htracks.close hsince]

/-- The intervals of a link do not overlap, end in time and cover the epochs of its flags. -/
theorem routeIntervals_spec {flags : List Bool} (hlength : flags.length = period) :
    (routeIntervals isoformat period flags).Pairwise (fun interval interval' =>
      ∀ t, ¬ (interval.Contains t ∧ interval'.Contains t)) ∧
      (∀ interval ∈ routeIntervals isoformat period flags, interval.stop ≤ (period : ℤ) - 1) ∧
      ∀ t : ℕ, (t : ℤ) < (period : ℤ) - 1 →
        ((∃ interval ∈ routeIntervals isoformat period flags, interval.Contains t) ↔ flags[t]? = some true) := by
  have hperm := @routeIntervals_perm isoformat period flags
  have hvalues : (flags.map shownAt).length = period := by rw [List.length_map, hlength]
  have hcovers : Covers _ ((period : ℤ) - 1) _ := (scanned (flags.map shownAt)).covers (by omega) (by omega)
  obtain ⟨horder, hstop, hcontains⟩ := hcovers.intervalsOf ()
  refine ⟨(hperm.pairwise_iff fun {interval interval'} h t hboth => h t hboth.symm).mpr horder.disjoint,
    fun interval hmem => hstop interval (hperm.mem_iff.mp hmem), fun t ht => ?_⟩
  have hmem : (∃ interval ∈ routeIntervals isoformat period flags, interval.Contains t) ↔
      ∃ interval ∈ intervalsOf () ((Scan.start.along 0 (flags.map shownAt)).close ((period : ℤ) - 1)),
        interval.Contains t := exists_congr fun interval => and_congr_left fun _ => hperm.mem_iff
  rw [hmem, hcontains t ht, List.getElem?_map]
  cases flags[t]? with
  | none => simp
  | some flag => cases flag <;> simp [shownAt]

/-- The intervals that the packets of a link show do not overlap, and contain the
epochs before the last one at which the property holds. -/
structure Emits (packets : List Polyline) (period : ℕ) (P : ℕ → Prop) : Prop where
  disjoint : (packets.flatMap Polyline.showIntervals).Pairwise (fun interval interval' =>
    ∀ t, ¬ (interval.Contains t ∧ interval'.Contains t))
  stop : ∀ interval ∈ packets.flatMap Polyline.showIntervals, interval.stop ≤ (period : ℤ) - 1
  contains : ∀ t : ℕ, (t : ℤ) < (period : ℤ) - 1 →
    ((∃ interval ∈ packets.flatMap Polyline.showIntervals, interval.Contains t) ↔ P t)

theorem Shows.emits {P : ℕ → Link → Prop} {linkShow : LinkShow} (h : Shows period P linkShow) (color : List ℕ)
    (suffix : String) (link : Link) :
    Emits ((pairPolylines (linkIntervals isoformat period linkShow) color suffix).filter (isOf link suffix)) period
      (fun t => P t link) := by
  have hmem : ∀ interval, interval ∈ ((pairPolylines (linkIntervals isoformat period linkShow) color suffix).filter
      (isOf link suffix)).flatMap Polyline.showIntervals ↔
      ∃ entry ∈ linkShow, entry.1 = link ∧ interval ∈ routeIntervals isoformat period entry.2 := by
    intro interval
    simp only [List.mem_flatMap, List.mem_filter, pairPolylines, linkIntervals, List.map_map, List.mem_map,
      Function.comp_apply]
    constructor
    · rintro ⟨_, ⟨⟨entry, hentry, rfl⟩, hlink⟩, hin⟩
      exact ⟨entry, hentry, ((isOf_genPolyline _ _).mp hlink).1, hin⟩
    · rintro ⟨entry, hentry, rfl, hin⟩
      exact ⟨_, ⟨⟨entry, hentry, rfl⟩, (isOf_genPolyline _ _).mpr ⟨rfl, rfl⟩⟩, hin⟩
  refine ⟨?_, fun interval hin => ?_, fun t ht => ?_⟩
  · refine List.pairwise_flatMap.mpr ⟨fun packet hpacket => ?_, ?_⟩
    · obtain ⟨entry', hentry', rfl⟩ := List.mem_map.mp (List.mem_filter.mp hpacket).1
      obtain ⟨entry, hentry, rfl⟩ := List.mem_map.mp hentry'
      exact (routeIntervals_spec isoformat (h.length entry hentry)).1
    · refine List.pairwise_filter.mpr (List.pairwise_map.mpr (List.pairwise_map.mpr ?_))
      refine (List.pairwise_map.mp h.nodup).imp fun {entry entry'} hne hlink hlink' => ?_
      exact absurd (((isOf_genPolyline _ _).mp hlink).1.trans ((isOf_genPolyline _ _).mp hlink').1.symm) hne
  · obtain ⟨entry, hentry, -, hinterval⟩ := (hmem interval).mp hin
    exact (routeIntervals_spec isoformat (h.length entry hentry)).2.1 interval hinterval
  · have hspec := fun entry hentry => (routeIntervals_spec isoformat (h.length entry hentry)).2.2 t ht
    constructor
    · rintro ⟨interval, hin, hcontains⟩
      obtain ⟨entry, hentry, rfl, hinterval⟩ := (hmem interval).mp hin
      exact (h.flags entry hentry t).mp ((hspec entry hentry).mp ⟨interval, hinterval, hcontains⟩)
    · intro hP
      obtain ⟨entry, hentry, rfl⟩ := List.mem_map.mp (h.keys t link hP)
      obtain ⟨interval, hinterval, hcontains⟩ := (hspec entry hentry).mpr ((h.flags entry hentry t).mpr hP)
      exact ⟨interval, (hmem interval).mpr ⟨entry, hentry, rfl, hinterval⟩, hcontains⟩

theorem Emits.append {cur last : List Polyline} {P Q : ℕ → Prop} (hcur : Emits cur period P)
    (hlast : Emits last period Q) (hnot : ∀ t, Q t → ¬ P t) : Emits (cur ++ last) period (fun t => P t ∨ Q t) := by
  refine ⟨?_, ?_, fun t ht => ?_⟩
  · rw [List.flatMap_append]
    refine List.pairwise_append.mpr ⟨hcur.disjoint, hlast.disjoint, fun interval hin interval' hin' t hboth => ?_⟩
    have ht : (t : ℤ) < (period : ℤ) - 1 := hboth.1.2.trans_le (hcur.stop interval hin)
    exact hnot t ((hlast.contains t ht).mp ⟨interval', hin', hboth.2⟩) ((hcur.contains t ht).mp ⟨interval, hin, hboth.1⟩)
  · rw [List.flatMap_append]
    exact fun interval hin => (List.mem_append.mp hin).elim (hcur.stop interval) (hlast.stop interval)
  · rw [← hcur.contains t ht, ← hlast.contains t ht, List.flatMap_append]
    simp only [List.mem_append, or_and_right, exists_or]

theorem not_isOf {shown : List (Link × List Interval)} {color : List ℕ} {suffix suffix' : String} (hne : suffix ≠ suffix')
    (link : Link) : ∀ packet ∈ pairPolylines shown color suffix, isOf link suffix' packet = false := by
  intro packet hpacket
  obtain ⟨entry, -, rfl⟩ := List.mem_map.mp hpacket
  exact Bool.eq_false_iff.mpr fun hof => hne ((isOf_genPolyline _ _).mp hof).2

theorem emits_packets {routes : List (ℕ × List String)} (h : (routes.map Prod.fst).Perm (List.range period)) :
    ∃ packets, addPairRoutes isoformat routes period = .ok packets ∧ ∀ link,
      Emits (packets.filter (isOf link "")) period (fun t => OnPath routes t link) ∧
      Emits (packets.filter (isOf link "-last")) period (fun t => LeftPath routes t link) ∧
      Emits (packets.filter (fun packet => isOf link "" packet || isOf link "-last" packet)) period
        (fun t => OnPath routes t link ∨ LeftPath routes t link) := by
  have hepochs : ∀ item ∈ routes, item.1 < period := fun item hitem =>
    List.mem_range.mp (h.mem_iff.mp (List.mem_map_of_mem hitem))
  obtain ⟨state, hrun, hstate⟩ := walked hepochs
  refine ⟨_, by rw [addPairRoutes, hrun]; rfl, fun link => ?_⟩
  have hcur := hstate.cur.emits isoformat green "" link
  have hlast := hstate.last.emits isoformat red "-last" link
  have hcurNot := @not_isOf (linkIntervals isoformat period state.curLinkShow) green "" "-last" (by decide) link
  have hlastNot := @not_isOf (linkIntervals isoformat period state.lastLinkShow) red "-last" "" (by decide) link
  have hnone : ∀ {packets : List Polyline} {p : Polyline → Bool}, (∀ packet ∈ packets, p packet = false) →
      packets.filter p = [] := fun hp => List.filter_eq_nil_iff.mpr fun packet hpacket => by simp [hp packet hpacket]
  rw [List.filter_append, List.filter_append, List.filter_append, hnone hcurNot, hnone hlastNot, List.append_nil,
    List.nil_append]
  refine ⟨hcur, hlast, ?_⟩
  rw [List.filter_congr fun packet hpacket => by rw [hcurNot packet hpacket, Bool.or_false],
    List.filter_congr (l := pairPolylines _ red _) fun packet hpacket => by rw [hlastNot packet hpacket, Bool.false_or]]
  exact hcur.append hlast fun t hleft => hleft.not_onPath (h.nodup_iff.mpr List.nodup_range)

/-- The packets of a link show it while it is on the path; its last ones, where it has
just left it. The intervals of all of them are disjoint. -/
theorem addPairRoutes_emits {routes : List (ℕ × List String)} (h : (routes.map Prod.fst).Perm (List.range period)) :
    ∃ packets, addPairRoutes isoformat routes period = .ok packets ∧ ∀ link,
      Emits (packets.filter (isOf link "")) period (fun t => OnPath routes t link) ∧
      Emits (packets.filter (isOf link "-last")) period (fun t => LeftPath routes t link) ∧
      Emits (packets.filter (fun packet => isOf link "" packet || isOf link "-last" packet)) period
        (fun t => OnPath routes t link ∨ LeftPath routes t link) ∧
      (routes.map Prod.fst = List.range period → ∀ t < period, LeftPath routes t link ↔
        ∃ u, t = u + 1 ∧ OnPath routes u link ∧ ¬ OnPath routes t link) := by
  obtain ⟨packets, hpackets, hemits⟩ := emits_packets isoformat h
  refine ⟨packets, hpackets, fun link => ?_⟩
  obtain ⟨hcur, hlast, hboth⟩ := hemits link
  exact ⟨hcur, hlast, hboth, fun hkeys t ht => leftPath_iff hkeys ht⟩

theorem pairRoutes_keys (shortest_path : ℕ → String → String → List String) (sAtt dAtt : ℕ → String) :
    (pairRoutes shortest_path period sAtt dAtt).map Prod.fst = List.range period := by
  obtain ⟨hlength, hentries⟩ := @pairRoutes_spec shortest_path sAtt dAtt period
  refine List.ext_getElem? fun t => ?_
  rw [List.getElem?_map]
  by_cases ht : t < period
  · obtain ⟨u, hu⟩ := hentries t ht
    rw [hu, List.getElem?_range ht]
    rfl
  · rw [List.getElem?_eq_none (by omega), List.getElem?_eq_none (by rw [List.length_range]; omega)]
    rfl

theorem addPairRoutes_emits_two :
    let routes := pairRoutes (fun _ s d => [s, d]) 2 (fun t => toString t) (fun _ => "p")
    ∃ packets, addPairRoutes toString routes 2 = .ok packets ∧ ∀ link,
      Emits (packets.filter (isOf link "")) 2 (fun t => OnPath routes t link) ∧
      Emits (packets.filter (isOf link "-last")) 2 (fun t => LeftPath routes t link) ∧
      Emits (packets.filter (fun packet => isOf link "" packet || isOf link "-last" packet)) 2
        (fun t => OnPath routes t link ∨ LeftPath routes t link) ∧
      (routes.map Prod.fst = List.range 2 → ∀ t < 2, LeftPath routes t link ↔
        ∃ u, t = u + 1 ∧ OnPath routes u link ∧ ¬ OnPath routes t link) :=
  addPairRoutes_emits toString (List.Perm.of_eq (pairRoutes_keys _ _ _))

def reversedRoutes : List (ℕ × List String) := [(1, ["a", "b"]), (0, ["c", "d"])]

theorem reversed_routes_left :
    (reversedRoutes.map Prod.fst).Perm (List.range 2) ∧ ∃ packets, addPairRoutes toString reversedRoutes 2 = .ok packets ∧
      (∃ interval ∈ (packets.filter (isOf ("a", "b") "-last")).flatMap Polyline.showIntervals, interval.Contains 0) ∧
      ¬ ∃ u, 0 = u + 1 ∧ OnPath reversedRoutes u ("a", "b") ∧ ¬ OnPath reversedRoutes 0 ("a", "b") := by
  have hperm : (reversedRoutes.map Prod.fst).Perm (List.range 2) := by decide
  obtain ⟨packets, hpackets, hemits⟩ := emits_packets toString hperm
  refine ⟨hperm, packets, hpackets, ((hemits ("a", "b")).2.1.contains 0 (by decide)).mpr ?_, ?_⟩
  · exact ⟨(1, ["a", "b"]), (0, ["c", "d"]), List.infix_refl _, rfl, by decide, by decide⟩
  · rintro ⟨u, hu, -⟩
    cases hu

end ShownLinks

end LeoNdn.CzmlIntervals
