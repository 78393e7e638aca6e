import MailMerge.Calendar.Zone
import MailMerge.Proofs.Calendar.Ordinal
/-!
# Where moments have a place in universal time

A moment on a clock at a known distance from universal time always has its place. A reading of a
zone's clock has one, whatever the zone, on every day but the three at either end of the calendar
(`Zone.exists_place`). On the clock of universal time only two readings have none: those of the
first day, and those of the last day that are shown for the second time (`Zone.place_utc_error_iff`).
-/
namespace MailMerge

namespace Moment

/-- The second that a moment's clock shows. -/
def second (x : Moment) : Int := { x with offset := none }.sinceEpoch / 1000000

/-- A second belongs to the day on which it is shown. -/
theorem second_bounds (x : Moment) :
    ((x.date.ordinal : Int) - 719163) * 86400 ≤ x.second ∧
      x.second < ((x.date.ordinal : Int) - 719162) * 86400 := by
  obtain ⟨hh, hm, hs, hu⟩ := x.time.isTime
  simp only [second, sinceEpoch, Option.elim_none, microsPerDay]
  omega

theorem second_within (x : Moment) : firstSecond ≤ x.second ∧ x.second ≤ lastSecond := by
  have h1 := Date.one_le_ordinal x.date
  have h2 := Date.ordinal_le_last x.date
  have h := x.second_bounds
  unfold firstSecond lastSecond
  unfold lastOrdinal at h2
  omega

/-- There is a moment just when its second is one of the calendar's. -/
theorem exists_ofEpoch? {n : Int} (h : firstSecond ≤ n / 1000000) (h' : n / 1000000 ≤ lastSecond) :
    ∃ x, ofEpoch? n = some x := by
  unfold firstSecond at h
  unfold lastSecond at h'
  have hday : Date.ofOrdinal? (719163 + n / microsPerDay) ≠ none := by
    rw [Ne, Date.ofOrdinal?_eq_none_iff]
    unfold lastOrdinal microsPerDay
    omega
  obtain ⟨d, hd⟩ := Option.ne_none_iff_exists'.1 hday
  have htime : IsTime ((n % microsPerDay).toNat / 1000000 / 3600)
      ((n % microsPerDay).toNat / 1000000 / 60 % 60) ((n % microsPerDay).toNat / 1000000 % 60)
      ((n % microsPerDay).toNat % 1000000) := by
    unfold IsTime microsPerDay
    omega
  refine ⟨⟨d, ⟨_, _, _, _, htime⟩, some .utc, false⟩, ?_⟩
  simp [ofEpoch?, hd, ClockTime.of?, htime]

end Moment

namespace Zone

variable {z : Zone} {x : Moment}

/-! ## Reading a clock -/

theorem reading_eq_ok {u : Int} (h : firstSecond ≤ u + z.shift u) (h' : u + z.shift u ≤ lastSecond) :
    z.reading u = .ok (u + z.shift u) := by
  rw [reading, if_neg (by omega), if_neg (by omega)]

/-- A clock can be read a day away from the ends of the calendar. -/
theorem reading_of_inside {u : Int} (h : firstSecond + secondsPerDay ≤ u)
    (h' : u + secondsPerDay ≤ lastSecond) : z.reading u = .ok (u + z.shift u) := by
  obtain ⟨hlow, hhigh⟩ := z.isShift u
  exact reading_eq_ok (by omega) (by omega)

/-! ## Searching for a reading -/

/-- Three days away from the ends of the calendar every reading is found, within a day of where it
would stand on a clock of universal time. -/
theorem exists_instant (z : Zone) {t : Int} (again : Bool) (h : firstSecond + 3 * secondsPerDay ≤ t)
    (h' : t + 3 * secondsPerDay ≤ lastSecond) :
    ∃ u, z.instant t again = .ok u ∧ t - secondsPerDay < u ∧ u < t + secondsPerDay := by
  have hday : secondsPerDay = 86400 := rfl
  have hread : ∀ u, t - 2 * secondsPerDay ≤ u → u ≤ t + 2 * secondsPerDay →
      z.reading u = .ok (u + z.shift u) := fun u hl hu => reading_of_inside (by omega) (by omega)
  have hshift := z.isShift
  have hu := hshift t
  obtain ⟨there, hthere, hnear⟩ : ∃ there,
      there = (if again then t - z.shift t + secondsPerDay else t - z.shift t - secondsPerDay) ∧
        t - 2 * secondsPerDay ≤ there ∧ there ≤ t + 2 * secondsPerDay := by
    refine ⟨_, rfl, ?_⟩
    split <;> omega
  have hfirst : z.reading t = .ok (t + z.shift t) := hread t (by omega) (by omega)
  have hcandidate : t + z.shift t - t = z.shift t := by omega
  have hother : ∀ other, -secondsPerDay < other → other < secondsPerDay →
      z.reading (t - other) = .ok (t - other + z.shift (t - other)) :=
    fun other hl hu => hread _ (by omega) (by omega)
  have hback : ∀ u, u + z.shift u - u = z.shift u := fun u => by omega
  have hsecond := hshift (t - z.shift t)
  have hthird := hshift there
  unfold instant
  simp only [hfirst, bind, Except.bind, hcandidate, hother (z.shift t) hu.1 hu.2, ← hthere,
    hread there hnear.1 hnear.2, Except.map, hback]
  split
  · split
    · exact ⟨_, rfl, by omega, by omega⟩
    · rw [hother _ hthird.1 hthird.2]
      refine ⟨_, rfl, ?_⟩
      repeat' split
      all_goals omega
  · split
    · rename_i hne heq
      exact absurd heq.1 hne
    · rw [hother _ hsecond.1 hsecond.2]
      refine ⟨_, rfl, ?_⟩
      repeat' split
      all_goals omega

/-! ## Places -/

theorem place_of_offset {o : Offset} (h : x.offset = some o) (z : Zone) :
    z.place x = .ok ⟨x, o, o.name⟩ := by
  rw [place, h]

/-- Whatever the zone, a moment has its place in universal time on every day but the first three and
the last three. -/
theorem exists_place (z : Zone) (hfirst : 4 ≤ x.date.ordinal)
    (hlast : x.date.ordinal + 3 ≤ lastOrdinal) : ∃ p, z.place x = .ok p := by
  have hday : secondsPerDay = 86400 := rfl
  obtain ⟨hlow, hhigh⟩ := x.second_bounds
  have hbegin : firstSecond + 3 * secondsPerDay ≤ x.second := by
    unfold firstSecond
    omega
  have hend : x.second + 3 * secondsPerDay ≤ lastSecond := by
    unfold lastSecond
    unfold lastOrdinal at hlast
    omega
  cases ho : x.offset with
  | some o => exact ⟨_, place_of_offset ho z⟩
  | none =>
    have hsecond : x.sinceEpoch / 1000000 = x.second := by
      rw [Moment.second, ← ho]
    obtain ⟨u, hu, hul, huh⟩ := z.exists_instant x.again hbegin hend
    have hu1 := z.isShift u
    obtain ⟨y, hy⟩ := Moment.exists_ofEpoch? (n := x.sinceEpoch - z.shift u * 1000000) (by omega)
      (by omega)
    have hv1 := z.isShift ((x.sinceEpoch - z.shift u * 1000000) / 1000000)
    obtain ⟨y', hy'⟩ := Moment.exists_ofEpoch? (n := x.sinceEpoch - z.shift u * 1000000 +
      z.shift ((x.sinceEpoch - z.shift u * 1000000) / 1000000) * 1000000) (by omega) (by omega)
    simp only [place, ho, hsecond, hu, bind, Except.bind, hy, hy']
    exact ⟨_, rfl⟩

theorem instant_utc_error_iff {t : Int} {again : Bool} {f : DateFault} (h : firstSecond ≤ t)
    (h' : t ≤ lastSecond) : utc.instant t again = .error f ↔
      again = false ∧ t - secondsPerDay < firstSecond ∧ f = .beforeCalendar ∨
        again = true ∧ lastSecond < t + secondsPerDay ∧ f = .afterCalendar := by
  have hday : secondsPerDay = 86400 := rfl
  have hshift : ∀ u, utc.shift u = 0 := fun _ => rfl
  have hread : ∀ u, firstSecond ≤ u → u ≤ lastSecond → utc.reading u = .ok u := fun u hl hu => by
    have := reading_eq_ok (z := utc) (u := u) (by rw [hshift]; omega) (by rw [hshift]; omega)
    rwa [hshift, Int.add_zero] at this
  unfold instant
  simp only [hread t h h', bind, Except.bind, Int.sub_self, Int.sub_zero, if_true]
  cases again with
  | false =>
    by_cases hbegin : t - secondsPerDay < firstSecond
    · have hthere : utc.reading (t - secondsPerDay) = .error .beforeCalendar := by
        rw [reading, hshift, if_pos (by omega)]
      simp [hthere, Except.map, hbegin, eq_comm]
    · simp [hread (t - secondsPerDay) (by omega) (by omega), Except.map, hbegin]
  | true =>
    by_cases hend : lastSecond < t + secondsPerDay
    · have hthere : utc.reading (t + secondsPerDay) = .error .afterCalendar := by
        rw [reading, hshift, if_neg (by omega), if_pos (by omega)]
      simp [hthere, Except.map, hend, eq_comm]
    · simp [hread (t + secondsPerDay) (by omega) (by omega), Except.map, hend]

theorem place_utc_error_iff {f : DateFault} : utc.place x = .error f ↔ x.offset = none ∧
    (x.again = false ∧ x.date.IsFirst ∧ f = .beforeCalendar ∨
      x.again = true ∧ x.date.IsLast ∧ f = .afterCalendar) := by
  have hday : secondsPerDay = 86400 := rfl
  have hone := Date.one_le_ordinal x.date
  have hlast := Date.ordinal_le_last x.date
  obtain ⟨hlow, hhigh⟩ := x.second_bounds
  obtain ⟨hbegin, hend⟩ := x.second_within
  have hisFirst : x.second - secondsPerDay < firstSecond ↔ x.date.IsFirst := by
    rw [← Date.ordinal_eq_one_iff]
    unfold firstSecond
    omega
  have hisLast : lastSecond < x.second + secondsPerDay ↔ x.date.IsLast := by
    rw [← Date.ordinal_eq_last_iff]
    unfold lastSecond lastOrdinal at *
    omega
  cases ho : x.offset with
  | some o => simp [place_of_offset ho]
  | none =>
    have hsecond : x.sinceEpoch / 1000000 = x.second := by
      rw [Moment.second, ← ho]
    obtain ⟨y, hy⟩ := Moment.exists_ofEpoch? (n := x.sinceEpoch) (hsecond ▸ hbegin) (hsecond ▸ hend)
    rw [← hisFirst, ← hisLast, ← instant_utc_error_iff hbegin hend]
    cases hi : utc.instant x.second x.again with
    | error e => simp [place, ho, hsecond, hi, bind, Except.bind]
    | ok u =>
      have hshift : ∀ u, utc.shift u = 0 := fun _ => rfl
      simp [place, ho, hsecond, hi, bind, Except.bind, hshift, hy]

theorem exists_place_utc (hagain : x.again = false) (hfirst : ¬ x.date.IsFirst) :
    ∃ p, utc.place x = .ok p := by
  cases hp : utc.place x with
  | ok p => exact ⟨p, rfl⟩
  | error f =>
    rcases (place_utc_error_iff.1 hp).2 with ⟨-, h, -⟩ | ⟨h, -⟩
    · exact absurd h hfirst
    · rw [hagain] at h
      cases h

end Zone
end MailMerge
