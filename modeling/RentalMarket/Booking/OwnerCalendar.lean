import RentalMarket.Booking.LocalPeriod

namespace RentalMarket.Booking.Wire

open RentalMarket.Core RentalMarket.Civil BookingState

/-- The month a date falls in, as `YYYY-MM`. -/
def monthOf (date : String) : String := String.ofList (date.toList.take 7)

def firstDayOf (month : String) : String := month ++ "-01"

def nextMonth (month : String) : Except String String :=
  (Time.addLocalMonths (firstDayOf month) 1).map monthOf

/-- `ORDER BY "startAt", "id"`. -/
def periodOrder (p : Period) (i : Id) (q : Period) (j : Id) : Bool :=
  decide (p.startAt < q.startAt) || (decide (p.startAt = q.startAt) && decide (i ≤ j))

def listBlocks (blocks : List AvailabilityBlock) (listingId : Id) (fromAt toAt : Instant) :
    List AvailabilityBlock :=
  (blocks.filter (fun b => decide (b.listingId = listingId) && Period.overlaps fromAt toAt b.period)).insertionSort
    (fun a b => periodOrder a.period a.id b.period b.id = true)

def listBookedPeriods (bookings : List BookingRow) (listingId : Id) (fromAt toAt : Instant) :
    List BookingRow :=
  (bookings.filter (fun r => decide (r.listingId = listingId) && occupiesCalendar r.state &&
    Period.overlaps fromAt toAt r.period)).insertionSort
      (fun a b => periodOrder a.period a.id b.period b.id = true)

structure ListingAvailability where
  month : String
  blocks : List Block
  bookings : List BookedPeriod
  deriving DecidableEq, Repr

/-- `AvailabilityService.readMonth`: one month of a listing's calendar, the
current one where none is asked for, or `none` for somebody else's listing. -/
def readMonth (z : Zone) (ownerOf : Id → Option Id) (blocks : List AvailabilityBlock)
    (bookings : List BookingRow) (now : Instant) (listingId ownerId : Id) (month : Option String) :
    Except String (Option ListingAvailability) :=
  if ownerOf listingId = some ownerId then
    let resolved := month.getD (monthOf (Time.toLocalDateString z now))
    (Time.startOfLocalDay z (firstDayOf resolved)).bind (fun fromAt =>
      (nextMonth resolved).bind (fun next =>
        (Time.startOfLocalDay z (firstDayOf next)).map (fun toAt =>
          some ⟨resolved, (listBlocks blocks listingId fromAt toAt).map (toWireBlock z),
            (listBookedPeriods bookings listingId fromAt toAt).map (toWirePeriod z)⟩)))
  else .ok none

/-- Push a date and go on to the next, as long as the dates are wanted. A walk
that outlives its fuel gives no answer. -/
def walkDays (wanted : String → Bool) : Nat → String → Except String (List String)
  | 0, _ => .error "The walk has not ended"
  | fuel + 1, date =>
    if wanted date then
      (Time.addLocalDays date 1).bind (fun next =>
        (walkDays wanted fuel next).map (fun days => date :: days))
    else .ok []

def daysOf (month : String) : Except String (List String) :=
  walkDays (fun date => monthOf date = month) 32 (firstDayOf month)

/-- As many as there are dates that can be written. -/
def writtenDates : Nat := 3652425

def daysCovering (periods : List Dates) : Except String (List String) :=
  match periods with
  | [] => .ok []
  | period :: periods =>
    (walkDays (fun date => date ≤ period.endDate) writtenDates period.startDate).bind (fun days =>
      (daysCovering periods).map (fun rest => days ++ rest))

inductive Shade where
  | blockedDay
  | bookedDay
  | freeDay
  deriving DecidableEq, Repr

/-- Which class a cell takes: blocked wins. -/
def classFor (blocked booked : Bool) : Shade :=
  if blocked then .blockedDay else if booked then .bookedDay else .freeDay

def describeDay (blocked booked : Bool) : String :=
  if blocked && booked then "unavailable — you blocked it, and it is booked"
  else if blocked then "unavailable — you blocked it"
  else if booked then "booked"
  else "available"

structure Cell where
  date : String
  shade : Shade
  description : String
  deriving DecidableEq, Repr

def monthGrid (availability : ListingAvailability) : Except String (List Cell) :=
  (daysOf availability.month).bind (fun days =>
    (daysCovering (availability.blocks.map (·.toDates))).bind (fun blocked =>
      (daysCovering (availability.bookings.map (·.toDates))).map (fun booked =>
        days.map (fun date => ⟨date, classFor (blocked.contains date) (booked.contains date),
          describeDay (blocked.contains date) (booked.contains date)⟩))))

/-- A period from one midnight to a later one, both with dates that can be
written. -/
def MidnightAligned (z : Zone) (p : Period) : Prop :=
  ∃ d e : Date, d.Written ∧ e.Written ∧ d.number < e.number ∧
    p = ⟨z.startOfLocalDay d.number, z.startOfLocalDay e.number⟩

def wireDates (z : Zone) (p : Period) : Dates :=
  ⟨Time.toLocalDateString z p.startAt, Time.toLocalDateString z (p.endAt - 1)⟩

def dayText (n : Int) : String := (Date.ofNumber n).toISODate

theorem walkDays_eq {wanted : String → Bool} {s : Int} {k fuel : Nat} (hfuel : k < fuel)
    (hwritten : ∀ i : Nat, i ≤ k → (Date.ofNumber (s + i)).Written)
    (hin : ∀ i : Nat, i < k → wanted (dayText (s + i)) = true)
    (hout : wanted (dayText (s + k)) = false) :
    walkDays wanted fuel (dayText s) = .ok ((List.range k).map (fun i : Nat => dayText (s + i))) := by
  induction k generalizing s fuel with
  | zero =>
    obtain ⟨fuel, rfl⟩ := Nat.exists_eq_add_one.mpr hfuel
    rw [walkDays, if_neg (by simpa using hout)]
    rfl
  | succ k ih =>
    obtain ⟨fuel, rfl⟩ := Nat.exists_eq_add_one.mpr (Nat.zero_lt_of_lt hfuel)
    have hshift : ∀ i : Nat, s + 1 + i = s + (i + 1 : Nat) := fun i => by omega
    have hrest := ih (s := s + 1) (show k < fuel by omega)
      (fun i hi => by rw [hshift]; exact hwritten (i + 1) (by omega))
      (fun i hi => by rw [hshift]; exact hin (i + 1) (by omega))
      (by rw [hshift]; exact hout)
    have hfirst : wanted (dayText s) = true := by simpa using hin 0 (by omega)
    have hnext : Time.addLocalDays (dayText s) 1 = .ok (dayText (s + 1)) := by
      rw [dayText, Time.addLocalDays_toISODate (by simpa using hwritten 0 (by omega)),
        Date.number_ofNumber]
      rfl
    rw [walkDays, if_pos hfirst, hnext]
    simp only [Except.bind, hrest, Except.map]
    rw [List.range_succ_eq_map, List.map_cons, List.map_map]
    simp [Function.comp_def, hshift]

theorem monthOf_toISODate_eq_iff {d e : Date} (hd : d.Written) (he : e.Written) :
    monthOf d.toISODate = monthOf e.toISODate ↔ d.monthIndex = e.monthIndex := by
  have hdm := d.month_valid
  have hem := e.month_valid
  rw [monthOf, monthOf, ← String.toList_inj, String.toList_ofList, String.toList_ofList,
    Date.toList_toISODate hd, Date.toList_toISODate he]
  unfold Date.Written at hd he
  simp only [List.take_succ_cons, List.take_zero, List.cons.injEq, digitChar_eq_iff, and_true, true_and]
  unfold Date.monthIndex
  omega

theorem firstDayOf_monthOf {d : Date} (hd : d.Written) (hday : d.day = 1) :
    firstDayOf (monthOf d.toISODate) = d.toISODate := by
  rw [firstDayOf, monthOf, ← String.toList_inj, String.toList_append, String.toList_ofList,
    Date.toList_toISODate hd, hday]
  rfl

theorem month_of_firstDayOf {month : String} {first : Date}
    (h : Date.fromFormat (firstDayOf month) = some first) :
    first.Written ∧ first.day = 1 ∧ month = monthOf first.toISODate := by
  obtain ⟨htext, hwritten⟩ := Date.fromFormat_eq_some.mp h
  have hlist := congrArg String.toList htext
  rw [firstDayOf, String.toList_append] at hlist
  have hlen : month.toList.length = 7 := by
    have hten := congrArg List.length hlist
    rw [Date.toList_toISODate hwritten, List.length_append] at hten
    simpa using hten
  refine ⟨hwritten, ?_, ?_⟩
  · have hday := first.day_valid
    have hmonth := (daysInMonth_bounds first.year first.month).2
    have hdrop := congrArg (List.drop 7) hlist
    rw [List.drop_append_of_le_length (by omega), List.drop_of_length_le (by omega),
      Date.toList_toISODate hwritten] at hdrop
    obtain ⟨hten, hone⟩ : Nat.digitChar (first.day.toNat / 10 % 10) = '0' ∧
        Nat.digitChar (first.day.toNat % 10) = '1' := by
      simpa [eq_comm] using hdrop
    rw [Nat.digitChar_eq_zero] at hten
    rw [Nat.digitChar_eq_one] at hone
    omega
  · rw [monthOf, ← hlist, ← hlen, List.take_left, String.ofList_toList]

theorem dayText_le_iff {m n : Int} (hm : (Date.ofNumber m).Written) (hn : (Date.ofNumber n).Written) :
    dayText m ≤ dayText n ↔ m ≤ n := by
  rw [dayText, dayText, Date.toISODate_le_iff hm hn, Date.number_ofNumber, Date.number_ofNumber]

theorem dayText_eq_iff {m n : Int} (hn : (Date.ofNumber n).Written) : dayText m = dayText n ↔ m = n := by
  rw [dayText, dayText, Date.toISODate_eq_iff hn]
  constructor
  · intro h
    rw [← Date.number_ofNumber m, h, Date.number_ofNumber]
  · intro h
    rw [h]

section

variable {z : Zone}

theorem MidnightAligned.wireDates_eq {p : Period} (h : MidnightAligned z p) : ∃ s e : Int,
    (Date.ofNumber s).Written ∧ (Date.ofNumber e).Written ∧ s < e ∧
      p = ⟨z.startOfLocalDay s, z.startOfLocalDay e⟩ ∧ wireDates z p = ⟨dayText s, dayText (e - 1)⟩ := by
  obtain ⟨d, e, hd, he, hlt, rfl⟩ := h
  refine ⟨d.number, e.number, by rwa [d.ofNumber_number], by rwa [e.ofNumber_number], hlt, rfl, ?_⟩
  rw [wireDates, Time.toLocalDateString_startOfLocalDay, Time.toLocalDateString_before_startOfLocalDay]
  rfl

theorem MidnightAligned.dates_iff_overlaps {p : Period} {n : Int} (h : MidnightAligned z p)
    (hn : (Date.ofNumber n).Written) :
    ((wireDates z p).startDate ≤ dayText n ∧ dayText n ≤ (wireDates z p).endDate) ↔
      Period.overlaps (z.startOfLocalDay n) (z.startOfLocalDay (n + 1)) p = true := by
  obtain ⟨s, e, hs, he, hlt, rfl, hdates⟩ := h.wireDates_eq
  have hlast : (Date.ofNumber (e - 1)).Written := by
    rw [Date.written_ofNumber_iff] at hs he ⊢
    omega
  rw [hdates, dayText_le_iff hs hn, dayText_le_iff hn hlast, Period.overlaps, Bool.and_eq_true,
    decide_eq_true_iff, decide_eq_true_iff, z.startOfLocalDay_strictMono.lt_iff_lt, gt_iff_lt,
    z.startOfLocalDay_strictMono.lt_iff_lt]
  omega

theorem walkDays_dates {p : Period} (h : MidnightAligned z p) : ∃ days,
    walkDays (fun date => date ≤ (wireDates z p).endDate) writtenDates (wireDates z p).startDate = .ok days ∧
      ∀ n, (Date.ofNumber n).Written → (dayText n ∈ days ↔
        (wireDates z p).startDate ≤ dayText n ∧ dayText n ≤ (wireDates z p).endDate) := by
  obtain ⟨s, e, hs, he, hlt, rfl, hdates⟩ := h.wireDates_eq
  have hsn := Date.written_ofNumber_iff.mp hs
  have hen := Date.written_ofNumber_iff.mp he
  have hwritten : ∀ i : Nat, i ≤ (e - s).toNat → (Date.ofNumber (s + i)).Written := by
    intro i hi
    rw [Date.written_ofNumber_iff]
    omega
  have hlast : (Date.ofNumber (e - 1)).Written := by
    rw [Date.written_ofNumber_iff]
    omega
  have hfuel : (e - s).toNat < writtenDates := by
    unfold writtenDates
    omega
  rw [hdates]
  refine ⟨_, walkDays_eq hfuel hwritten (fun i hi => ?_) ?_, fun n hn => ?_⟩
  · exact decide_eq_true ((dayText_le_iff (hwritten i hi.le) hlast).mpr (by omega))
  · exact decide_eq_false (fun hle => absurd ((dayText_le_iff (hwritten _ le_rfl) hlast).mp hle) (by omega))
  · simp only [List.mem_map, List.mem_range]
    rw [dayText_le_iff hs hn, dayText_le_iff hn hlast]
    constructor
    · rintro ⟨i, hi, htext⟩
      have hday := (dayText_eq_iff hn).mp htext
      omega
    · rintro ⟨hle, hge⟩
      refine ⟨(n - s).toNat, by omega, ?_⟩
      rw [show s + ((n - s).toNat : Int) = n by omega]

theorem daysCovering_eq {periods : List Period} (h : ∀ p ∈ periods, MidnightAligned z p) : ∃ days,
    daysCovering (periods.map (wireDates z)) = .ok days ∧ ∀ n, (Date.ofNumber n).Written →
      (dayText n ∈ days ↔ ∃ p ∈ periods, (wireDates z p).startDate ≤ dayText n ∧
        dayText n ≤ (wireDates z p).endDate) := by
  induction periods with
  | nil => exact ⟨[], rfl, by simp⟩
  | cons p periods ih =>
    obtain ⟨rest, hrest, hmem⟩ := ih (fun q hq => h q (List.mem_cons_of_mem p hq))
    obtain ⟨days, hdays, hmem'⟩ := walkDays_dates (h p List.mem_cons_self)
    refine ⟨days ++ rest, ?_, fun n hn => ?_⟩
    · rw [List.map_cons, daysCovering, hdays, hrest]
      rfl
    · rw [List.mem_append, hmem n hn, hmem' n hn, List.exists_mem_cons_iff]

/-- What the calendar shades of the rows it is shown, of those that touch the
window, is what a query over all the rows answers, day by day. -/
theorem daysCovering_window {α : Type} {rows shown : List α} (period : α → Period) {counts : α → Bool}
    (fromDay toDay : Int) (haligned : ∀ r ∈ rows, counts r = true → MidnightAligned z (period r))
    (hshown : ∀ r, r ∈ shown ↔ r ∈ rows ∧ (counts r && Period.overlaps (z.startOfLocalDay fromDay)
      (z.startOfLocalDay toDay) (period r)) = true) : ∃ days,
    daysCovering (shown.map (fun r => wireDates z (period r))) = .ok days ∧
      ∀ n, fromDay ≤ n → n < toDay → (Date.ofNumber n).Written →
        days.contains (dayText n) = rows.any (fun r => counts r &&
          Period.overlaps (z.startOfLocalDay n) (z.startOfLocalDay (n + 1)) (period r)) := by
  have hall : ∀ p ∈ shown.map period, MidnightAligned z p := by
    intro p hp
    obtain ⟨r, hr, rfl⟩ := List.mem_map.mp hp
    obtain ⟨hrow, hcounts⟩ := (hshown r).mp hr
    rw [Bool.and_eq_true] at hcounts
    exact haligned r hrow hcounts.1
  obtain ⟨days, hdays, hmem⟩ := daysCovering_eq hall
  rw [List.map_map] at hdays
  refine ⟨days, hdays, fun n hfrom hto hn => ?_⟩
  rw [Bool.eq_iff_iff, List.contains_iff_mem, hmem n hn, List.any_eq_true]
  constructor
  · rintro ⟨p, hp, hdates⟩
    have hover := ((hall p hp).dates_iff_overlaps hn).mp hdates
    obtain ⟨r, hr, rfl⟩ := List.mem_map.mp hp
    obtain ⟨hrow, hcounts⟩ := (hshown r).mp hr
    rw [Bool.and_eq_true] at hcounts
    exact ⟨r, hrow, by rw [hcounts.1, hover]; rfl⟩
  · rintro ⟨r, hrow, hr⟩
    rw [Bool.and_eq_true] at hr
    have hmidnight := haligned r hrow hr.1
    -- a period that overlaps one day of the window overlaps the window
    have hwindow : Period.overlaps (z.startOfLocalDay fromDay) (z.startOfLocalDay toDay) (period r) = true := by
      have hover := hr.2
      have hstart := z.startOfLocalDay_strictMono.monotone hfrom
      have hend := z.startOfLocalDay_strictMono.monotone (Int.add_one_le_of_lt hto)
      rw [Period.overlaps, Bool.and_eq_true, decide_eq_true_iff, decide_eq_true_iff] at hover ⊢
      exact ⟨hover.1.trans_le hend, hstart.trans_lt hover.2⟩
    refine ⟨period r, List.mem_map.mpr ⟨r, (hshown r).mpr ⟨hrow, ?_⟩, rfl⟩, ?_⟩
    · rw [hr.1, hwindow]
      rfl
    · exact (hmidnight.dates_iff_overlaps hn).mpr hr.2

end

section

variable {month : String} {first : Date}

theorem written_of_month {n : Int} (hfirst : first.Written) (hlast : first.monthIndex < 119999)
    (hle : startOfMonth first.monthIndex ≤ n) (hlt : n ≤ startOfMonth (first.monthIndex + 1)) :
    (Date.ofNumber n).Written := by
  have hyear := first.monthIndex_div
  have hstart := startOfMonth_strictMono.monotone (show 0 ≤ first.monthIndex by unfold Date.Written at hfirst; omega)
  have hend := startOfMonth_strictMono.monotone (show first.monthIndex + 1 ≤ 119999 by omega)
  have hzero : startOfMonth 0 = -366 := rfl
  have hmax : startOfMonth 119999 = 3652028 := rfl
  rw [Date.written_ofNumber_iff]
  omega

theorem number_of_first (hday : first.day = 1) : first.number = startOfMonth first.monthIndex := by
  rw [Date.number, hday, Int.sub_self, Int.add_zero]

theorem written_in_month (hfirst : first.Written) (hday : first.day = 1)
    (hlast : first.monthIndex < 119999) {i : Nat} (hi : i ≤ (daysInMonth first.year first.month).toNat) :
    (Date.ofNumber (first.number + i)).Written := by
  have hbounds := daysInMonth_bounds first.year first.month
  have hsucc := first.startOfMonth_succ_monthIndex
  have hnumber := number_of_first hday
  exact written_of_month hfirst hlast (by omega) (by omega)

theorem daysOf_eq (h : Date.fromFormat (firstDayOf month) = some first) (hlast : first.monthIndex < 119999) :
    daysOf month = .ok ((List.range (daysInMonth first.year first.month).toNat).map
      (fun i : Nat => dayText (first.number + i))) := by
  obtain ⟨hwritten, hday, hmonth⟩ := month_of_firstDayOf h
  have hbounds := daysInMonth_bounds first.year first.month
  have hnumber := number_of_first hday
  have hsucc := first.startOfMonth_succ_monthIndex
  have hdates : ∀ i : Nat, i ≤ (daysInMonth first.year first.month).toNat →
      (Date.ofNumber (first.number + i)).Written := fun i hi => written_in_month hwritten hday hlast hi
  have hmonths : ∀ i : Nat, i ≤ (daysInMonth first.year first.month).toNat →
      (monthOf (dayText (first.number + i)) = month ↔ i < (daysInMonth first.year first.month).toNat) := by
    intro i hi
    rw [dayText, hmonth, monthOf_toISODate_eq_iff (hdates i hi) hwritten, Date.monthIndex_ofNumber,
      monthOfDay_eq_iff]
    omega
  have hfirst : firstDayOf month = dayText first.number := by
    rw [(Date.fromFormat_eq_some.mp h).1, dayText, first.ofNumber_number]
  have hfuel : (daysInMonth first.year first.month).toNat < 32 := by omega
  rw [daysOf, hfirst]
  refine walkDays_eq hfuel hdates (fun i hi => decide_eq_true ((hmonths i hi.le).mpr hi)) ?_
  exact decide_eq_false (fun hm => lt_irrefl _ ((hmonths _ le_rfl).mp hm))

variable {z : Zone} {ownerOf : Id → Option Id} {blocks : List AvailabilityBlock}
  {bookings : List BookingRow} {now : Instant} {listingId ownerId : Id}

/-- A month as its owner reads it, up to the first midnight of the next. -/
theorem readMonth_eq (h : Date.fromFormat (firstDayOf month) = some first)
    (hlast : first.monthIndex < 119999) (howner : ownerOf listingId = some ownerId) :
    readMonth z ownerOf blocks bookings now listingId ownerId (some month) = .ok (some ⟨month,
      (listBlocks blocks listingId (z.startOfLocalDay first.number)
        (z.startOfLocalDay (startOfMonth (first.monthIndex + 1)))).map (toWireBlock z),
      (listBookedPeriods bookings listingId (z.startOfLocalDay first.number)
        (z.startOfLocalDay (startOfMonth (first.monthIndex + 1)))).map (toWirePeriod z)⟩) := by
  obtain ⟨hwritten, hday, hmonth⟩ := month_of_firstDayOf h
  have htext := (Date.fromFormat_eq_some.mp h).1
  have hnextDay : (first.plusMonths 1).day = 1 := by
    have hlen := daysInMonth_bounds ((first.monthIndex + 1) / 12) ((first.monthIndex + 1) % 12 + 1)
    rw [Date.plusMonths]
    simp only
    omega
  have hnextNumber : (first.plusMonths 1).number = startOfMonth (first.monthIndex + 1) := by
    rw [Date.number, hnextDay, Date.monthIndex_plusMonths]
    omega
  have hnext : (first.plusMonths 1).Written := by
    rw [Date.written_iff, hnextNumber, ← Date.written_ofNumber_iff]
    exact written_of_month hwritten hlast (startOfMonth_strictMono.monotone (by omega)) le_rfl
  have hnextMonth : nextMonth month = .ok (monthOf (first.plusMonths 1).toISODate) := by
    rw [nextMonth, Time.addLocalMonths, Time.shiftLocalDate, h]
    rfl
  have hfrom : Time.startOfLocalDay z (firstDayOf month) = .ok (z.startOfLocalDay first.number) :=
    Time.startOfLocalDay_eq_ok.mpr ⟨first, htext, hwritten, rfl⟩
  have hto : Time.startOfLocalDay z (firstDayOf (monthOf (first.plusMonths 1).toISODate)) =
      .ok (z.startOfLocalDay (startOfMonth (first.monthIndex + 1))) := by
    rw [firstDayOf_monthOf hnext hnextDay, ← hnextNumber]
    exact Time.startOfLocalDay_eq_ok.mpr ⟨_, rfl, hnext, rfl⟩
  simp only [readMonth, if_pos howner, Option.getD_some, hfrom, hnextMonth, Except.bind, hto, Except.map]

/-- The cell of a day as the request path's two queries would shade it. -/
def dayCell (z : Zone) (blocks : List AvailabilityBlock) (bookings : List BookingRow) (listingId : Id)
    (n : Int) : Cell :=
  let day := Booking.periodFromLocalDates z n n
  ⟨dayText n, classFor (isBlocked blocks listingId day) (isBooked bookings listingId day),
    describeDay (isBlocked blocks listingId day) (isBooked bookings listingId day)⟩

theorem mem_listBlocks {fromAt toAt : Instant} {b : AvailabilityBlock} :
    b ∈ listBlocks blocks listingId fromAt toAt ↔
      b ∈ blocks ∧ (decide (b.listingId = listingId) && Period.overlaps fromAt toAt b.period) = true := by
  rw [listBlocks, List.mem_insertionSort, List.mem_filter]

theorem mem_listBookedPeriods {fromAt toAt : Instant} {r : BookingRow} :
    r ∈ listBookedPeriods bookings listingId fromAt toAt ↔ r ∈ bookings ∧
      (decide (r.listingId = listingId) && occupiesCalendar r.state &&
        Period.overlaps fromAt toAt r.period) = true := by
  rw [listBookedPeriods, List.mem_insertionSort, List.mem_filter]

/-- The grid the page draws is the one the request path's queries give. -/
theorem monthGrid_readMonth (h : Date.fromFormat (firstDayOf month) = some first)
    (hlast : first.monthIndex < 119999) (howner : ownerOf listingId = some ownerId)
    (hblocks : ∀ b ∈ blocks, b.listingId = listingId → MidnightAligned z b.period)
    (hbookings : ∀ r ∈ bookings, r.listingId = listingId → MidnightAligned z r.period) :
    ∃ availability, readMonth z ownerOf blocks bookings now listingId ownerId (some month) =
        .ok (some availability) ∧
      monthGrid availability = .ok ((List.range (daysInMonth first.year first.month).toNat).map
        (fun i : Nat => dayCell z blocks bookings listingId (first.number + i))) := by
  obtain ⟨hwritten, hday, hmonth⟩ := month_of_firstDayOf h
  have hsucc := first.startOfMonth_succ_monthIndex
  have hnumber := number_of_first hday
  obtain ⟨blocked, hblocked, hblockedDay⟩ := daysCovering_window (·.period) first.number
    (startOfMonth (first.monthIndex + 1)) (fun b hb hc => hblocks b hb (of_decide_eq_true hc))
    (fun b => mem_listBlocks)
  obtain ⟨booked, hbooked, hbookedDay⟩ := daysCovering_window (·.period) first.number
    (startOfMonth (first.monthIndex + 1))
    (fun r hr hc => hbookings r hr (of_decide_eq_true (Bool.and_eq_true_iff.mp hc).1))
    (fun r => mem_listBookedPeriods)
  refine ⟨_, readMonth_eq h hlast howner, ?_⟩
  rw [monthGrid, daysOf_eq h hlast]
  simp only [Except.bind, List.map_map]
  rw [show (fun b => b.toDates) ∘ toWireBlock z = fun b : AvailabilityBlock => wireDates z b.period from rfl,
    show (fun b => b.toDates) ∘ toWirePeriod z = fun r : BookingRow => wireDates z r.period from rfl,
    hblocked, hbooked]
  simp only [Except.map, Except.ok.injEq]
  refine List.map_congr_left (fun i hi => ?_)
  have hin := List.mem_range.mp hi
  have hdate := written_in_month hwritten hday hlast hin.le
  rw [Function.comp_apply, hblockedDay _ (by omega) (by omega) hdate,
    hbookedDay _ (by omega) (by omega) hdate]
  rfl

theorem dayCell_shade (n : Int) :
    ((dayCell z blocks bookings listingId n).shade = .blockedDay ↔
        reasonUnavailable blocks bookings listingId (Booking.periodFromLocalDates z n n) = some .blocked) ∧
      ((dayCell z blocks bookings listingId n).shade = .bookedDay ↔
        reasonUnavailable blocks bookings listingId (Booking.periodFromLocalDates z n n) = some .booked) ∧
      ((dayCell z blocks bookings listingId n).shade = .freeDay ↔
        reasonUnavailable blocks bookings listingId (Booking.periodFromLocalDates z n n) = none) := by
  simp only [dayCell, classFor, reasonUnavailable]
  cases isBlocked blocks listingId (Booking.periodFromLocalDates z n n) <;>
    cases isBooked bookings listingId (Booking.periodFromLocalDates z n n) <;> simp

/-- A day is in a month exactly when it comes between its first day and the
next month's. -/
theorem mem_month_iff {d : Date} (hday : first.day = 1) :
    d.year = first.year ∧ d.month = first.month ↔ ∃ i : Nat, i < (daysInMonth first.year first.month).toNat ∧
      d.number = first.number + i := by
  have hdm := d.month_valid
  have hfm := first.month_valid
  have hsucc := first.startOfMonth_succ_monthIndex
  have hnumber := number_of_first hday
  have hindex : d.year = first.year ∧ d.month = first.month ↔ d.monthIndex = first.monthIndex := by
    unfold Date.monthIndex
    omega
  rw [hindex, ← Date.monthOfDay_number, monthOfDay_eq_iff, hsucc]
  constructor
  · intro h
    exact ⟨(d.number - first.number).toNat, by omega, by omega⟩
  · rintro ⟨i, hi, hd⟩
    omega

/-- The owner's calendar lists every day of the month once and in order, and
shades each as the request path would answer for it. -/
theorem calendar_shows_what_is_refused (h : Date.fromFormat (firstDayOf month) = some first)
    (hlast : ¬(first.year = 9999 ∧ first.month = 12)) (howner : ownerOf listingId = some ownerId)
    (hblocks : ∀ b ∈ blocks, b.listingId = listingId → MidnightAligned z b.period)
    (hbookings : ∀ r ∈ bookings, r.listingId = listingId → MidnightAligned z r.period) :
    ∃ availability cells, readMonth z ownerOf blocks bookings now listingId ownerId (some month) =
        .ok (some availability) ∧
      monthGrid availability = .ok cells ∧
      (cells.map (·.date)).Pairwise (· < ·) ∧
      (∀ date, date ∈ cells.map (·.date) ↔
        ∃ d : Date, (d.year = first.year ∧ d.month = first.month) ∧ date = d.toISODate) ∧
      (∀ cell ∈ cells, ∃ day, periodFromLocalDates z cell.date cell.date = .ok day ∧
        (cell.shade = .blockedDay ↔ reasonUnavailable blocks bookings listingId day = some .blocked) ∧
        (cell.shade = .bookedDay ↔ reasonUnavailable blocks bookings listingId day = some .booked) ∧
        (cell.shade = .freeDay ↔ reasonUnavailable blocks bookings listingId day = none)) ∧
      (∀ b ∈ blocks, b.listingId = listingId → ∀ cell ∈ cells, (toWireBlock z b).startDate ≤ cell.date →
        cell.date ≤ (toWireBlock z b).endDate → cell.shade = .blockedDay) ∧
      (∀ r ∈ bookings, r.listingId = listingId → occupiesCalendar r.state = true → ∀ cell ∈ cells,
        (toWirePeriod z r).startDate ≤ cell.date → cell.date ≤ (toWirePeriod z r).endDate →
          cell.shade ≠ .freeDay) := by
  obtain ⟨hwritten, hday, hmonth⟩ := month_of_firstDayOf h
  have hindex : first.monthIndex < 119999 := by
    have hfm := first.month_valid
    unfold Date.Written at hwritten
    unfold Date.monthIndex
    omega
  obtain ⟨availability, hread, hgrid⟩ := monthGrid_readMonth h hindex howner hblocks hbookings
  have hdates : ∀ i : Nat, i ≤ (daysInMonth first.year first.month).toNat →
      (Date.ofNumber (first.number + i)).Written := fun i hi => written_in_month hwritten hday hindex hi
  refine ⟨availability, _, hread, hgrid, ?_, fun date => ?_, fun cell hcell => ?_, fun b hb hlisting cell hcell
    hstart hend => ?_, fun r hr hlisting hstate cell hcell hstart hend => ?_⟩
  · rw [List.map_map, List.pairwise_map]
    refine List.pairwise_lt_range.imp_of_mem (fun hi hj hlt => ?_)
    rw [List.mem_range] at hi hj
    refine not_le.mp (fun hle => ?_)
    have := (dayText_le_iff (hdates _ hj.le) (hdates _ hi.le)).mp hle
    omega
  · simp only [List.map_map, List.mem_map, List.mem_range]
    constructor
    · rintro ⟨i, hi, rfl⟩
      exact ⟨_, (mem_month_iff hday).mpr ⟨i, hi, Date.number_ofNumber _⟩, rfl⟩
    · rintro ⟨d, hd, rfl⟩
      obtain ⟨i, hi, hn⟩ := (mem_month_iff hday).mp hd
      refine ⟨i, hi, ?_⟩
      rw [Function.comp_apply, dayCell, ← hn]
      exact congrArg Date.toISODate d.ofNumber_number
  · obtain ⟨i, hi, rfl⟩ := List.mem_map.mp hcell
    have hdate := hdates i (List.mem_range.mp hi).le
    have hnext := Date.written_ofNumber_iff.mp (hdates (i + 1) (List.mem_range.mp hi))
    refine ⟨_, periodFromLocalDates_eq_ok.mpr ⟨_, _, rfl, rfl, hdate, hdate, ?_, rfl⟩, ?_⟩
    · rw [Date.number_ofNumber]
      push_cast at hnext
      omega
    · rw [Date.number_ofNumber]
      exact dayCell_shade _
  · obtain ⟨i, hi, rfl⟩ := List.mem_map.mp hcell
    have hdate := hdates i (List.mem_range.mp hi).le
    have hover := ((hblocks b hb hlisting).dates_iff_overlaps hdate).mp ⟨hstart, hend⟩
    have hblocked : isBlocked blocks listingId (Booking.periodFromLocalDates z (first.number + i)
        (first.number + i)) = true := by
      refine List.any_eq_true.mpr ⟨b, hb, ?_⟩
      rw [Bool.and_eq_true]
      exact ⟨decide_eq_true hlisting, hover⟩
    rw [dayCell, hblocked]
    rfl
  · obtain ⟨i, hi, rfl⟩ := List.mem_map.mp hcell
    have hdate := hdates i (List.mem_range.mp hi).le
    have hover := ((hbookings r hr hlisting).dates_iff_overlaps hdate).mp ⟨hstart, hend⟩
    have hbooked : isBooked bookings listingId (Booking.periodFromLocalDates z (first.number + i)
        (first.number + i)) = true := by
      refine List.any_eq_true.mpr ⟨r, hr, ?_⟩
      rw [Bool.and_eq_true, Bool.and_eq_true]
      exact ⟨⟨decide_eq_true hlisting, hstate⟩, hover⟩
    simp only [dayCell, hbooked, classFor]
    split <;> simp

def lentBlock : AvailabilityBlock :=
  ⟨"x1", "l1", Booking.periodFromLocalDates (.springForward 738975) 738943 738946, some "lent to my brother"⟩

def easterHire : BookingRow where
  id := "b1"
  listingId := "l1"
  renterId := "renter"
  state := accepted
  period := Booking.periodFromLocalDates (.springForward 738975) 738975 738976
  timeZone := "Europe/London"
  quoteId := "q1"
  categoryVersionId := "v1"
  itemChargeAmount := 2000
  renterFeeAmount := 300
  totalAmount := 2300
  currency := .gbp
  itemTitle := "Hammer drill"
  categoryName := "Power tools"
  damageExcess := none
  requestExpiresAt := 0

theorem calendar_shows_easter : ∃ availability cells,
    readMonth (.springForward 738975) (fun _ => some "owner") [lentBlock] [easterHire] 0 "l1" "owner"
        (some "2024-03") = .ok (some availability) ∧
      monthGrid availability = .ok cells ∧ (cells.map (·.date)).Pairwise (· < ·) ∧
      ∀ cell ∈ cells, "2024-02-28" ≤ cell.date → cell.date ≤ "2024-03-02" → cell.shade = .blockedDay := by
  have hblocks : ∀ b ∈ [lentBlock], b.listingId = "l1" →
      MidnightAligned (.springForward 738975) b.period := by
    intro b hb _
    rw [List.mem_singleton.mp hb]
    exact ⟨⟨2024, 2, 28, by decide, by decide⟩, ⟨2024, 3, 3, by decide, by decide⟩, by decide, by decide,
      by decide, by decide⟩
  have hbookings : ∀ r ∈ [easterHire], r.listingId = "l1" →
      MidnightAligned (.springForward 738975) r.period := by
    intro r hr _
    rw [List.mem_singleton.mp hr]
    exact ⟨⟨2024, 3, 31, by decide, by decide⟩, ⟨2024, 4, 2, by decide, by decide⟩, by decide, by decide,
      by decide, by decide⟩
  have hfirst : Date.fromFormat (firstDayOf "2024-03") = some ⟨2024, 3, 1, by decide, by decide⟩ := by
    decide +kernel
  obtain ⟨availability, cells, hread, hgrid, horder, -, -, hblock, -⟩ :=
    calendar_shows_what_is_refused hfirst (by decide) (by rfl) hblocks hbookings
  refine ⟨availability, cells, hread, hgrid, horder, fun cell hcell hstart hend => ?_⟩
  have hdates : (toWireBlock (.springForward 738975) lentBlock).toDates = ⟨"2024-02-28", "2024-03-02"⟩ := by
    decide +kernel
  refine hblock lentBlock List.mem_cons_self rfl cell hcell ?_ ?_
  · rwa [hdates]
  · rwa [hdates]

end

end RentalMarket.Booking.Wire
