import LeoNdn.Loops
import LeoNdn.RouteRenewal

/-!
When the route of a prefix announcement expires: its lifetime in 64-bit
nanoseconds, and over the integers.
-/

namespace LeoNdn.AnnouncedLifetimes

open LeoNdn.Loops LeoNdn.Tlv LeoNdn.NdnPacket LeoNdn.KiteProtocol LeoNdn.RibTable LeoNdn.RibManager LeoNdn.RouteRenewal

section Lifetimes

/-- A date in seconds becomes a time point in nanoseconds, and whole seconds again. -/
def timePoint (date : ℤ) : ℤ := (toInt64 (date * 1000000000)).tdiv 1000000000

def decodedPeriod (dates : ValidityPeriod) : ValidityPeriod := ⟨timePoint dates.m_notBefore, timePoint dates.m_notAfter⟩

/-- The least of the two durations and the rest of the validity period, in
nanoseconds; nothing where the announcement is not valid. -/
def lifetime (systemNow expiration : ℤ) (dates : Option ValidityPeriod) (maximum : ℤ) : ℤ :=
  match dates with
  | none => min expiration maximum
  | some period =>
    if period.m_notBefore * 1000000000 ≤ systemNow ∧ systemNow ≤ period.m_notAfter * 1000000000 then
      min (min (period.m_notAfter * 1000000000 - systemNow) expiration) maximum
    else 0

variable (system_clock : ℤ → ℤ) (now : ℤ)

/-- The expiry of the route is the right one over the integers, and not before now. -/
structure ExpiresRight (route : Route) (expiration : ℕ) (dates : Option ValidityPeriod) (maxLifetime : ℕ) : Prop where
  expires : route.expires =
    some (now + lifetime (system_clock now) (expiration * 1000000) dates (maxLifetime * 1000000))
  notBefore : ∀ time ∈ route.expires, now ≤ time

/-- Both durations are not negative as 64-bit nanoseconds and the clock can be moved
on by each of them, the first cut at the end of validity. Durations below 2^63 ns and
dates less than 2^63 ns from the epoch lose nothing; one that is beyond wraps to a
value that is not below the least lifetime, and a date stays on its side of now. -/
structure FitsClock (expiration : ℕ) (dates : Option ValidityPeriod) (maxLifetime : ℕ) : Prop where
  nonneg : 0 ≤ toInt64 (expiration * 1000000)
  nonnegMaximum : 0 ≤ toInt64 (maxLifetime * 1000000)
  sum : now + lifetime (system_clock now) (toInt64 (expiration * 1000000)) (dates.map decodedPeriod)
    9223372036854775807 < 9223372036854775808
  sumMaximum : now + toInt64 (maxLifetime * 1000000) < 9223372036854775808
  least : lifetime (system_clock now) (toInt64 (expiration * 1000000)) (dates.map decodedPeriod)
      (toInt64 (maxLifetime * 1000000)) =
    lifetime (system_clock now) (expiration * 1000000) dates (maxLifetime * 1000000)

end Lifetimes

section Expiry

variable {system_clock : ℤ → ℤ} {now : ℤ}

theorem toInt64_range (n : ℤ) : -9223372036854775808 ≤ toInt64 n ∧ toInt64 n < 9223372036854775808 := by
  unfold toInt64
  omega

theorem nanoseconds_milliseconds (number : ℕ) : nanoseconds (milliseconds number) = toInt64 (number * 1000000) := by
  unfold nanoseconds milliseconds toInt64
  split
  · rfl
  · omega

theorem timePoint_range (date : ℤ) :
    -9223372036854775808 ≤ timePoint date * 1000000000 ∧ timePoint date * 1000000000 < 9223372036854775808 := by
  obtain ⟨hlow, hhigh⟩ := toInt64_range (date * 1000000000)
  unfold timePoint
  rcases Int.le_total 0 (toInt64 (date * 1000000000)) with hpos | hneg
  · rw [Int.tdiv_eq_ediv_of_nonneg hpos]
    omega
  · have hopposite : toInt64 (date * 1000000000) = -(-toInt64 (date * 1000000000)) := (Int.neg_neg _).symm
    rw [hopposite, Int.neg_tdiv, Int.tdiv_eq_ediv_of_nonneg (by omega)]
    omega

theorem min_sums_iff {least first second : ℤ} (hnow : 0 ≤ now ∧ now < 9223372036854775808)
    (hfirst : -9223372036854775808 ≤ first ∧ first < 9223372036854775808)
    (hsecond : -9223372036854775808 ≤ second ∧ second < 9223372036854775808) (hleast : 0 ≤ least) :
    min (toInt64 (now + first)) (toInt64 (now + second)) = now + least ↔
      0 ≤ first ∧ 0 ≤ second ∧ now + first < 9223372036854775808 ∧ now + second < 9223372036854775808 ∧
        min first second = least := by
  unfold toInt64
  omega

theorem lifetime_nonneg (systemNow : ℤ) (expiration : ℕ) (dates : Option ValidityPeriod) (maxLifetime : ℕ) :
    0 ≤ lifetime systemNow (expiration * 1000000) dates (maxLifetime * 1000000) := by
  unfold lifetime
  split
  · omega
  · split
    · omega
    · exact le_refl 0

theorem expires_eq {γ : Type} (hnow : 0 ≤ system_clock now ∧ system_clock now < 9223372036854775808)
    {ann : PrefixAnnouncement} {expiration : ℕ} {dates : Option ValidityPeriod}
    (hexpiration : ann.m_expiration = milliseconds expiration) (hdates : ann.m_validity = dates.map decodedPeriod)
    (faceId maxLifetime : ℕ) (callback : γ) :
    ∃ validityEnd, (0 ≤ validityEnd ∧ validityEnd < 9223372036854775808) ∧
      (announcedRoute system_clock now ⟨ann, faceId, maxLifetime, callback⟩).expires =
        some (min (toInt64 (now + min validityEnd (toInt64 (expiration * 1000000))))
          (toInt64 (now + toInt64 (maxLifetime * 1000000)))) ∧
      ∀ maximum, 0 ≤ toInt64 (expiration * 1000000) → 0 ≤ maximum → maximum < 9223372036854775808 →
        lifetime (system_clock now) (toInt64 (expiration * 1000000)) (dates.map decodedPeriod) maximum =
          min (min validityEnd (toInt64 (expiration * 1000000))) maximum := by
  have hmaximum : nanoseconds maxLifetime = toInt64 (maxLifetime * 1000000) := rfl
  unfold announcedRoute limitLifetime routeOfAnnouncement computeExpiration lifetime
  rw [hexpiration, hdates, nanoseconds_milliseconds]
  dsimp only
  rw [hmaximum]
  cases dates with
  | none =>
    refine ⟨9223372036854775807, by omega, rfl, fun maximum _ _ _ => ?_⟩
    have hrange := toInt64_range (expiration * 1000000)
    dsimp only [Option.map_none]
    omega
  | some dates =>
    dsimp only [Option.map_some]
    by_cases hvalid : (decodedPeriod dates).m_notBefore * 1000000000 ≤ system_clock now ∧
        system_clock now ≤ (decodedPeriod dates).m_notAfter * 1000000000
    · have hrange := timePoint_range dates.m_notAfter
      have hend : toInt64 ((decodedPeriod dates).m_notAfter * 1000000000 - system_clock now) =
          (decodedPeriod dates).m_notAfter * 1000000000 - system_clock now := by
        refine toInt64_eq ?_ ?_
        · omega
        · change timePoint dates.m_notAfter * 1000000000 - system_clock now < _
          omega
      refine ⟨(decodedPeriod dates).m_notAfter * 1000000000 - system_clock now, ?_, ?_, ?_⟩
      · refine ⟨by omega, ?_⟩
        change timePoint dates.m_notAfter * 1000000000 - system_clock now < _
        omega
      · rw [if_pos hvalid, hend]
      · intro maximum _ _ _
        rw [if_pos hvalid]
    · refine ⟨0, by omega, ?_, fun maximum _ _ _ => ?_⟩
      · rw [if_neg hvalid]
      · rw [if_neg hvalid]
        omega

/-- Over every announcement that can be decoded and every maximum lifetime. -/
theorem expiresRight_iff {γ : Type} (hnow : 0 ≤ now ∧ now < 9223372036854775808)
    (hsystem : 0 ≤ system_clock now ∧ system_clock now < 9223372036854775808)
    {ann : PrefixAnnouncement} {expiration : ℕ} {dates : Option ValidityPeriod}
    (hexpiration : ann.m_expiration = milliseconds expiration) (hdates : ann.m_validity = dates.map decodedPeriod)
    (faceId maxLifetime : ℕ) (callback : γ) :
    ExpiresRight system_clock now (announcedRoute system_clock now ⟨ann, faceId, maxLifetime, callback⟩) expiration dates
      maxLifetime ↔ FitsClock system_clock now expiration dates maxLifetime := by
  obtain ⟨validityEnd, hend, hexpires, hlifetime⟩ := expires_eq hsystem hexpiration hdates faceId maxLifetime callback
  have hleast := lifetime_nonneg (system_clock now) expiration dates maxLifetime
  have hrange := toInt64_range (expiration * 1000000)
  have hrangeMaximum := toInt64_range (maxLifetime * 1000000)
  have hfirst : -9223372036854775808 ≤ min validityEnd (toInt64 (expiration * 1000000)) ∧
      min validityEnd (toInt64 (expiration * 1000000)) < 9223372036854775808 := by omega
  have hsums := min_sums_iff hnow hfirst hrangeMaximum hleast
  constructor
  · intro hright
    have heq := hright.expires
    rw [hexpires, Option.some_inj, hsums] at heq
    obtain ⟨hfirst, hsecond, hsum, hsumMaximum, hmin⟩ := heq
    have hnonneg : 0 ≤ toInt64 (expiration * 1000000) := by omega
    refine ⟨hnonneg, hsecond, ?_, hsumMaximum, ?_⟩
    · rw [hlifetime 9223372036854775807 hnonneg (by omega) (by omega)]
      exact lt_of_le_of_lt (Int.add_le_add_left (min_le_left _ _) now) hsum
    · rw [hlifetime _ hnonneg hsecond hrangeMaximum.2, hmin]
  · intro hfits
    have hunlimited := hlifetime 9223372036854775807 hfits.nonneg (by omega) (by omega)
    have hlimited := hlifetime _ hfits.nonneg hfits.nonnegMaximum hrangeMaximum.2
    have hsum := hfits.sum
    rw [hunlimited] at hsum
    have hcut : min (min validityEnd (toInt64 (expiration * 1000000))) 9223372036854775807 =
        min validityEnd (toInt64 (expiration * 1000000)) := min_eq_left (Int.le_of_lt_add_one hfirst.2)
    rw [hcut] at hsum
    have heq := hsums.mpr ⟨le_min hend.1 hfits.nonneg, hfits.nonnegMaximum, hsum, hfits.sumMaximum,
      hlimited.symm.trans hfits.least⟩
    rw [heq] at hexpires
    refine ⟨hexpires, fun time htime => ?_⟩
    rw [hexpires, Option.mem_some_iff] at htime
    omega

end Expiry

section Samples

def pastExpiration : PrefixAnnouncement := { announcementOf [⟨8, [97]⟩] with m_expiration := milliseconds 10000000000000 }

theorem expiresRight_iff_hour :
    (ExpiresRight id 1000000000 (announcedRoute id 1000000000 ⟨announcementOf [⟨8, [97]⟩], 1, 600000, ()⟩) 3600000 none
      600000 ↔ FitsClock id 1000000000 3600000 none 600000) ∧
    FitsClock id 1000000000 3600000 none 600000 := by
  refine ⟨expiresRight_iff (by decide) (by decide) rfl rfl 1 600000 (), ?_⟩
  exact ⟨by decide, by decide, by decide, by decide, by decide⟩

theorem expires_before_now :
    ¬ ExpiresRight id 1000000000 (announcedRoute id 1000000000 ⟨pastExpiration, 1, 600000, ()⟩) 10000000000000 none
      600000 := by
  intro h
  have hexpires : (announcedRoute id 1000000000 ⟨pastExpiration, 1, 600000, ()⟩).expires =
      some (-8446744072709551616) := by decide
  have hnow := h.notBefore _ hexpires
  revert hnow
  decide

end Samples

end LeoNdn.AnnouncedLifetimes
