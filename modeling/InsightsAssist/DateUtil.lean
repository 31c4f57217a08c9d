import InsightsAssist.Calendars
import InsightsAssist.JavaStrings
import InsightsAssist.PostProcessing

/-! The conversion of the expiry dates in the provider's answers. Times are in milliseconds. -/
namespace InsightsAssist.DateUtil
open Calendars

/-- What the clocks of the default time zone are ahead of UTC when they show a time. -/
structure TimeZone where
  offsetByWall : Int → Int

/-- The time at which the clocks show a time; both since the start of 1970. -/
def TimeZone.instant (zone : TimeZone) (wall : Int) : Int := wall - zone.offsetByWall wall

/-! ### SimpleDateFormat -/

def isBlank (c : Char) : Bool := c = ' ' || c = '\t'

/-- `DecimalFormat.parse`: a number and what follows it. -/
def number (text : List Char) : Option (Int × List Char) :=
  let (sign, text) := match text.dropWhile isBlank with
    | '-' :: text => ((-1 : Int), text)
    | text => (1, text)
  let (cs, rest) := text.span fun c => (Java.digit c).isSome
  (Java.digits cs).map fun n : Nat => (sign * (n : Int), rest)

def literal (c : Char) : List Char → Option (List Char)
  | d :: text => if d = c then some text else none
  | [] => none

structure Fields where
  year : Int
  month : Int
  day : Int
  hour : Int
  minute : Int
  deriving DecidableEq, Repr

/-- An hour in the half of the day that is written as 1 to 12. -/
def hour1 (value : Int) : Int := if value = 12 then 0 else value

/-- `SimpleDateFormat.parse` with the pattern "yyyy-MM-dd hh:mm", up to the calendar. -/
def parse (text : List Char) : Option Fields := do
  let (year, text) ← number text
  let text ← literal '-' text
  let (month, text) ← number text
  let text ← literal '-' text
  let (day, text) ← number text
  let text ← literal ' ' text
  let (hour, text) ← number text
  let text ← literal ':' text
  let (minute, _) ← number text
  return ⟨year, month, day, hour1 hour, minute⟩

/-- The time since the start of 1970 that the clocks show on a day. -/
def wall (fixedDate minutes : Int) : Int := ((fixedDate - 719163) * 1440 + minutes) * 60000

/-- `GregorianCalendar.computeTime`, up to the time zone. The half of the day is not set, which
stands for the first, and the hour may go beyond it. -/
def Fields.wall (f : Fields) : Int :=
  let minutes := f.hour * 60 + f.minute
  DateUtil.wall (fixedDate f.year f.month (f.day + minutes / 1440)) (minutes % 1440)

/-- None where it throws. -/
def convert (zone : TimeZone) (date : Option String) : Option Int :=
  date.bind fun text => (parse text.toList).map fun f => zone.instant f.wall

/-! ### The moments that dates stand for -/

structure Moment where
  date : Date
  hour : Int
  minute : Int
  hour_nonneg : 0 ≤ hour
  hour_lt : hour < 24
  minute_nonneg : 0 ≤ minute
  minute_lt : minute < 60
  deriving DecidableEq

namespace Moment

def wall (m : Moment) : Int := DateUtil.wall m.date.fixedDate (m.hour * 60 + m.minute)

def padded (width : Nat) (n : Int) : List Char := (Nat.toDigits 10 n.toNat).leftpad width '0'

def text (m : Moment) : String :=
  String.ofList (padded 4 m.date.year ++ '-' :: padded 2 m.date.month ++ '-' :: padded 2 m.date.day ++
    ' ' :: padded 2 m.hour ++ ':' :: padded 2 m.minute)

def Before (a b : Moment) : Prop :=
  a.date.Before b.date ∨ (a.date = b.date ∧
    (a.hour < b.hour ∨ (a.hour = b.hour ∧ a.minute < b.minute)))

def read (m : Moment) : Int := if m.hour = 12 then m.wall - 43200000 else m.wall

end Moment

/-- The clocks show the moment when it is read, or another time that they show at once. -/
def IsRead (zone : TimeZone) (m : Moment) : Prop :=
  m.hour ≠ 12 ∨ zone.instant (m.wall - 43200000) = zone.instant m.wall

/-- The expiry date of a row after the first update for an answer. -/
def storedExpiry (db : Database) (readers : Readers) (clientTransactionId : Option String)
    (xml : String) (table : Table) (i : Nat) : Option Int :=
  match GenerateLinkPostProcess.read readers xml with
  | .success url expires =>
    (GenerateLinkPostProcess.firstUpdate db clientTransactionId url expires true table)[i]?.bind
      (·.expiryDate)
  | _ => none

variable {zone : TimeZone} {m a b : Moment} {text rest cs : List Char} {n : Int} {width : Nat}

theorem number_append (hne : cs ≠ []) (hcs : ∀ c ∈ cs, c.isDigit)
    (hrest : rest.head?.all fun c => (Java.digit c).isNone) :
    number (cs ++ rest) = some ((Nat.ofDigitChars 10 cs 0 : Int), rest) := by
  have hsome (c : Char) (hc : c ∈ cs) : (Java.digit c).isSome := by
    rw [Java.digit_of_isDigit (hcs c hc)]
    rfl
  have hspan : (cs ++ rest).span (fun c => (Java.digit c).isSome) = (cs, rest) := by
    have hstop : rest.takeWhile (fun c => (Java.digit c).isSome) = [] := by
      rw [List.takeWhile_eq_nil_iff]
      intro hpos
      simp_all [List.head?_eq_getElem?]
    rw [List.span_eq_takeWhile_dropWhile, List.takeWhile_append_of_pos hsome,
      List.dropWhile_append_of_pos hsome, hstop, List.append_nil]
    have hdrop := List.takeWhile_append_dropWhile (p := fun c => (Java.digit c).isSome) (l := rest)
    rw [hstop, List.nil_append] at hdrop
    rw [hdrop]
  have hhead : ∃ c cs', cs = c :: cs' ∧ c.isDigit := by
    obtain ⟨c, cs', rfl⟩ := List.exists_cons_of_ne_nil hne
    exact ⟨c, cs', rfl, hcs c (by simp)⟩
  have hblank : (cs ++ rest).dropWhile isBlank = cs ++ rest := by
    obtain ⟨c, cs', rfl, hc⟩ := hhead
    rw [List.cons_append, List.dropWhile_cons_of_neg]
    intro h
    obtain rfl | rfl : c = ' ' ∨ c = '\t' := by simpa [isBlank] using h
    · cases hc
    · cases hc
  rw [number, hblank]
  split
  rename_i sign text hmatch
  split at hmatch
  · rename_i hminus
    obtain ⟨c, cs', rfl, hc⟩ := hhead
    cases hminus
    cases hc
  · cases hmatch
    rw [hspan]
    simp only [Java.digits_eq_ofDigitChars hne hcs, Option.map_some, one_mul]

theorem number_padded (hn : 0 ≤ n) (hrest : rest.head?.all fun c => (Java.digit c).isNone) :
    number (Moment.padded width n ++ rest) = some (n, rest) := by
  have hdigit (c : Char) (hc : c ∈ Moment.padded width n) : c.isDigit := by
    rw [Moment.padded, List.leftpad, List.mem_append] at hc
    obtain hzero | hc := hc
    · rw [List.eq_of_mem_replicate hzero]
      decide
    · exact Nat.isDigit_of_mem_toDigits (by decide) (by decide) hc
  have hne : Moment.padded width n ≠ [] := by
    simp [Moment.padded, List.leftpad]
  rw [number_append hne hdigit hrest, Moment.padded, List.leftpad, Nat.ofDigitChars_append,
    Nat.ofDigitChars_replicate_zero, Nat.mul_zero, Nat.ofDigitChars_ten_toDigits,
    Int.toNat_of_nonneg hn]

theorem parse_text (m : Moment) : parse m.text.toList =
    some ⟨m.date.year, m.date.month, m.date.day, hour1 m.hour, m.minute⟩ := by
  have hyear : 0 ≤ m.date.year := Int.le_trans (by decide) m.date.year_pos
  have hmonth : 0 ≤ m.date.month := Int.le_trans (by decide) m.date.month_pos
  have hday : 0 ≤ m.date.day := Int.le_trans (by decide) m.date.day_pos
  have hlast : number (Moment.padded 2 m.minute ++ []) = some (m.minute, []) :=
    number_padded m.minute_nonneg rfl
  rw [List.append_nil] at hlast
  simp only [parse, Moment.text, String.toList_ofList, List.append_assoc, List.cons_append]
  rw [number_padded hyear rfl]
  simp only [Option.bind_eq_bind, Option.bind_some, literal, if_true]
  rw [number_padded hmonth rfl]
  simp only [Option.bind_some, if_true]
  rw [number_padded hday rfl]
  simp only [Option.bind_some, if_true]
  rw [number_padded m.hour_nonneg rfl]
  simp only [Option.bind_some, if_true]
  rw [hlast]
  rfl

/-- Noon is read as midnight, and all other hours as they are. -/
theorem wall_fields (m : Moment) :
    Fields.wall ⟨m.date.year, m.date.month, m.date.day, hour1 m.hour, m.minute⟩ = m.read := by
  have hnonneg := m.hour_nonneg
  have hlt := m.hour_lt
  have hminute := m.minute_nonneg
  have hminute' := m.minute_lt
  have hhour : (m.hour = 12 ∧ hour1 m.hour = 0) ∨ (m.hour ≠ 12 ∧ hour1 m.hour = m.hour) := by
    unfold hour1
    split
    · exact .inl ⟨‹_›, rfl⟩
    · exact .inr ⟨‹_›, rfl⟩
  have hday : (hour1 m.hour * 60 + m.minute) / 1440 = 0 := by omega
  have hminutes : (hour1 m.hour * 60 + m.minute) % 1440 = hour1 m.hour * 60 + m.minute := by omega
  simp only [Fields.wall, hday, hminutes, Int.add_zero]
  rw [← Date.fixedDate, Moment.read, Moment.wall, DateUtil.wall, DateUtil.wall]
  obtain ⟨hnoon, hzero⟩ | ⟨hother, hsame⟩ := hhour
  · rw [if_pos hnoon, hzero, hnoon]
    omega
  · rw [if_neg hother, hsame]

theorem convert_text (zone : TimeZone) (m : Moment) :
    convert zone (some m.text) = some (zone.instant m.read) := by
  rw [convert, Option.bind_some, parse_text, Option.map_some, wall_fields]

theorem instant_read_iff : zone.instant m.read = zone.instant m.wall ↔ IsRead zone m := by
  rw [Moment.read, IsRead]
  split
  · rename_i hnoon
    simp [hnoon]
  · rename_i hother
    simp [hother]

/-- A moment is read as earlier than a later one, unless this is at noon of the same day. -/
theorem read_lt_iff (h : a.Before b) : a.read < b.read ↔
    (b.hour = 12 → a.date ≠ b.date ∨ a.hour = 12 ∨ (a.hour = 0 ∧ a.minute < b.minute)) := by
  have ha := a.hour_lt
  have ha' := a.minute_lt
  have hpos := a.hour_nonneg
  have hb := b.hour_lt
  have hb' := b.minute_nonneg
  have hminute := a.minute_nonneg
  have hminute' := b.minute_lt
  have hbpos := b.hour_nonneg
  simp only [Moment.read, Moment.wall, DateUtil.wall]
  obtain hdate | ⟨hdate, htime⟩ := h
  · have hday := Date.fixedDate_lt hdate
    have hne : a.date ≠ b.date := by
      intro heq
      rw [heq] at hday
      omega
    simp only [ne_eq, hne, not_false_eq_true, true_or, implies_true, iff_true]
    split <;> split <;> omega
  · simp only [hdate, ne_eq, not_true_eq_false, false_or]
    split <;> split <;> omega

/-- The moment that a text stands for is returned, and stored, iff it is not at noon; and where the
clocks skip no time, later texts are converted to later times, but for those at noon. -/
theorem convert_moment_iff (zone : TimeZone) (m : Moment) :
    (convert zone (some m.text) = some (zone.instant m.wall) ↔ IsRead zone m) ∧
    (∀ db readers clientTransactionId xml url table i row, readers.convert = convert zone →
      contains xml "Success" → readers.generateUrlSuccess xml = some ⟨url, some m.text⟩ →
      table[i]? = some row → DatabaseUtil.hasId db clientTransactionId row →
      (storedExpiry db readers clientTransactionId xml table i = some (zone.instant m.wall) ↔
        IsRead zone m)) ∧
    (StrictMono zone.instant → ∀ later : Moment, m.Before later →
      ((∃ t t', convert zone (some m.text) = some t ∧ convert zone (some later.text) = some t' ∧
          t < t') ↔
        (later.hour = 12 → m.date ≠ later.date ∨ m.hour = 12 ∨
          (m.hour = 0 ∧ m.minute < later.minute)))) := by
  refine ⟨?_, ?_, ?_⟩
  · rw [convert_text, Option.some.injEq, instant_read_iff]
  · intro db readers clientTransactionId xml url table i row hconvert hsuccess hbean hrow hid
    have hread : GenerateLinkPostProcess.read readers xml = .success url (zone.instant m.read) := by
      rw [GenerateLinkPostProcess.read, if_pos hsuccess, hbean]
      simp only [hconvert, convert_text]
    simp only [storedExpiry, hread, GenerateLinkPostProcess.firstUpdate,
      DatabaseUtil.updateTransactionsLink]
    rw [DatabaseUtil.getElem?_update_of_selected hrow hid]
    simp only [if_true, Option.bind_some, Option.some.injEq, instant_read_iff]
  · intro hmono later hlater
    rw [← read_lt_iff hlater, convert_text, convert_text, ← hmono.lt_iff_lt]
    simp

def utc : TimeZone := ⟨fun _ => 0⟩

def halfPast (hour : Int) (hour_nonneg : 0 ≤ hour) (hour_lt : hour < 24) : Moment where
  date := ⟨2016, 5, 1, by decide, by decide, by decide, by decide, by decide, by decide, by decide⟩
  hour := hour
  minute := 30
  hour_nonneg := hour_nonneg
  hour_lt := hour_lt
  minute_nonneg := by decide
  minute_lt := by decide

def morning : Moment := halfPast 9 (by decide) (by decide)

def evening : Moment := halfPast 21 (by decide) (by decide)

def morningReaders : Readers where
  generateUrlSuccess _ := some ⟨some "https://acme.com/T1", some morning.text⟩
  errorResponse _ := none
  transactionStatus _ := none
  convert := convert utc

def initiated : Transaction where
  transactionId := "T1"
  perfiosTransactionId := none
  userId := 1
  generatedLink := none
  formDataJson := none
  status := .INITIATED
  insightsStatus := none
  message := none
  reportLocation := none
  isDeleted := 0
  expiryDate := none

theorem morning_converted :
    convert utc (some morning.text) = some (utc.instant morning.wall) ∧
      storedExpiry .plain morningReaders (some "T1") "Success" [initiated] 0 =
        some (utc.instant morning.wall) ∧
      ∃ t t', convert utc (some morning.text) = some t ∧ convert utc (some evening.text) = some t' ∧
        t < t' := by
  obtain ⟨hread, hstored, hordered⟩ := convert_moment_iff utc morning
  have hmorning : IsRead utc morning := .inl (by decide)
  have hmono : StrictMono utc.instant := fun a b hab => by simpa [TimeZone.instant, utc] using hab
  refine ⟨hread.mpr hmorning, ?_, ?_⟩
  · exact (hstored .plain morningReaders (some "T1") "Success" _ [initiated] 0 initiated rfl
      (by decide) rfl rfl (by decide)).mpr hmorning
  · exact (hordered hmono evening (.inr ⟨rfl, .inl (by decide)⟩)).mpr fun h => absurd h (by decide)

def noon : Moment := halfPast 12 (by decide) (by decide)

theorem noon_read_as_midnight :
    noon.text = "2016-05-01 12:30" ∧
      convert ⟨fun _ => 0⟩ (some noon.text) ≠ some (TimeZone.instant ⟨fun _ => 0⟩ noon.wall) := by
  refine ⟨by decide +kernel, ?_⟩
  rw [convert_text]
  decide +kernel

end InsightsAssist.DateUtil
