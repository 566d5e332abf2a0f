import Buildsmith.Text.Basic

/-!
# Stamps of builds

A stamp tells when and from which revision something was built.  It stands in a file between two
marks; what was between them before gives way to it, and a file without marks gets them at its end.
-/

namespace Buildsmith.Release

/-!
## The calendar

Dates are found in years that start on the first of March, so that a leap day is the last day of
its year.
-/

/-- A moment by the calendar and the clock. -/
structure CalendarTime where
  year : Int
  /-- From 1 to 12. -/
  month : Int
  /-- From 1 to 31. -/
  day : Int
  hour : Int
  minute : Int
  second : Int
  /-- Days since Monday. -/
  weekday : Int
  /-- The number of the day in its year, from 1 on. -/
  yearDay : Int
  deriving DecidableEq, Repr

def isLeapYear (year : Int) : Bool :=
  year % 4 = 0 && (year % 100 ≠ 0 || year % 400 = 0)

def daysBeforeMonth : List Int :=
  [0, 31, 59, 90, 120, 151, 181, 212, 243, 273, 304, 334]

def dateOfDays (days : Int) : Int × Int × Int :=
  let shifted := days + 719468
  let era := shifted / 146097
  let dayOfEra := shifted % 146097
  let yearOfEra := (dayOfEra - dayOfEra / 1460 + dayOfEra / 36524 - dayOfEra / 146096) / 365
  let dayOfYear := dayOfEra - (365 * yearOfEra + yearOfEra / 4 - yearOfEra / 100)
  let shiftedMonth := (5 * dayOfYear + 2) / 153
  let day := dayOfYear - (153 * shiftedMonth + 2) / 5 + 1
  let month := if shiftedMonth < 10 then shiftedMonth + 3 else shiftedMonth - 9
  (yearOfEra + era * 400 + (if month ≤ 2 then 1 else 0), month, day)

def CalendarTime.ofSeconds (seconds : Int) : CalendarTime :=
  let days := seconds / 86400
  let rest := seconds % 86400
  let (year, month, day) := dateOfDays days
  let leap := if isLeapYear year && month > 2 then 1 else 0
  { year, month, day
    hour := rest / 3600
    minute := rest % 3600 / 60
    second := rest % 60
    weekday := (days + 3) % 7
    yearDay := (daysBeforeMonth[(month - 1).toNat]?).getD 0 + leap + day }

/-!
## Descriptions of revisions

A revision is described by the name of the last tag, the number of commits since, the commit and a
mark for uncommitted changes, joined by hyphens.  What is there is told from the number of parts.
-/

/-- The four numbers of a version. -/
structure Version where
  major : Int := 0
  minor : Int := 0
  micro : Int := 0
  dev : Int := 0
  deriving DecidableEq, Repr

/-- What a description says about a revision. -/
structure Revision where
  tag : String := ""
  commit : String := ""
  isDirty : Bool := false
  deriving DecidableEq, Repr

def Revision.ofParts : List String → Revision
  | [] => {}
  | [commit] => { commit }
  | [a, b] => if b = "dirty" then { commit := a, isDirty := true } else { tag := a, commit := b }
  | [a, b, c] =>
    if c = "dirty" then { tag := a, commit := b, isDirty := true }
    else { tag := a ++ "." ++ b, commit := c }
  | a :: b :: c :: d :: _ => { tag := a ++ "." ++ b, commit := c, isDirty := d = "dirty" }

def Revision.ofDescription (s : String) : Revision :=
  Revision.ofParts (Text.splitOn s "-")

def Version.ofTag (tag : String) : Version :=
  if tag.toList.head? == some 'v' || tag.toList.head? == some 'V' then
    let numbers := (Text.splitOn (Text.dropFirst 1 tag) ".").map fun s =>
      (Text.Integer.parse? 10 s).getD 0
    let number (i : Nat) : Int := (numbers[i]?).getD 0
    { major := number 0, minor := number 1, micro := number 2, dev := number 3 }
  else {}

/-! ## Stamps -/

/-- The language of a file that carries a stamp. -/
inductive StampFormat where
  | makefile
  | header
  | cmake
  deriving DecidableEq, Repr

namespace StampFormat

def name : StampFormat → String
  | makefile => "makefile"
  | header => "header"
  | cmake => "cmake"

def all : List StampFormat := [makefile, header, cmake]

def ofName? (s : String) : Option StampFormat :=
  all.find? (·.name == s)

def startMark : StampFormat → String
  | header => "\n//compile append define start\n"
  | _ => "\n# compile append define start\n"

def endMark : StampFormat → String
  | header => "\n//compile append define end\n"
  | _ => "\n# compile append define end\n"

def padded (width : Nat) (name : String) : String :=
  name ++ Text.repeated (max 1 (width - name.length)) " "

def line (f : StampFormat) (width : Nat) (name value : String) : String :=
  match f with
  | makefile => padded width name ++ "=" ++ value ++ "\n"
  | header => "#define " ++ padded width name ++ value ++ "\n"
  | cmake => "set(" ++ padded width name ++ "\"" ++ value ++ "\")\n"

def timeText (f : StampFormat) (t : CalendarTime) : String :=
  let entry (name : String) (value : Int) : String := f.line 18 name (Text.Integer.text value)
  "\n" ++ entry "BUILD_TIME_YEAR" t.year ++ entry "BUILD_TIME_MONTH" t.month ++
    entry "BUILD_TIME_DAY" t.day ++ entry "BUILD_TIME_HOUR" t.hour ++
    entry "BUILD_TIME_MINUTE" t.minute ++ entry "BUILD_TIME_SECOND" t.second ++
    entry "BUILD_TIME_WEEK_OF_DAY" t.weekday ++ entry "BUILD_TIME_YEAR_OF_DAY" t.yearDay

def dirtyLine (f : StampFormat) (width : Nat) (isDirty : Bool) : String :=
  let name := "BUILD_GIT_IS_DIRTY"
  match f with
  | makefile =>
    if isDirty then f.line width name "y" else "# " ++ f.line width name " is not set"
  | header => f.line width name (if isDirty then "1" else "0")
  | cmake => f.line width name (if isDirty then "y" else "")

def revisionText (f : StampFormat) (r : Revision) : String :=
  let width := if f = makefile then 21 else 22
  let v := Version.ofTag r.tag
  let entry (name : String) (value : Int) : String := f.line width name (Text.Integer.text value)
  let commit := if f = header then "\"" ++ r.commit ++ "\"" else r.commit
  "\n" ++ entry "BUILD_VERSION_MAJOR" v.major ++ entry "BUILD_VERSION_MINOR" v.minor ++
    entry "BUILD_VERSION_MICRO" v.micro ++ entry "BUILD_VERSION_DEV" v.dev ++
    f.line width "BUILD_GIT_COMMIT_ID" commit ++ f.dirtyLine width r.isDirty

end StampFormat

def stamped? (start stop content : String) : Option String := do
  let (_, rest) ← Text.cut? content start
  let (body, _) ← Text.cutLast? rest stop
  return body

/-- Takes the old stamp out of a content: its text is removed wherever it occurs.  A content without
a stamp gets an empty one at its end. -/
def clearStamp (start stop content : String) : String :=
  match stamped? start stop content with
  | none => content ++ start ++ stop
  | some body => Text.replace content body ""

def fillStamp (stop info content : String) : String :=
  String.intercalate (info ++ stop) (Text.splitOn content stop)

def StampFormat.update (f : StampFormat) (info content : String) : String :=
  fillStamp f.endMark info (clearStamp f.startMark f.endMark content)

end Buildsmith.Release
