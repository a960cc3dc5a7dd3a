import Timepiece.Bytes

/-!
# Names that the watch knows

Documents name the values that the watch keeps and measures, its converters, its
fonts and the events of its buttons; a program holds one byte for each.

## Main definitions

* `Symbols.internal`, `Symbols.sensor`, `Symbols.converter`, `Symbols.font`,
  `Symbols.event` — the tables.
* `Symbols.key?` — the byte of a name.
-/

namespace Timepiece.Symbols

/-- The values that the watch keeps. -/
def internal : List (String × UInt8) :=
  [("time", 0x01), ("hour", 0x02), ("hour12", 0x03), ("hour12designator", 0x04),
   ("minutes", 0x05), ("seconds", 0x06), ("dayOfWeek", 0x10), ("dayOfMonth", 0x11),
   ("dayOfYear", 0x12), ("month", 0x13), ("year", 0x14), ("batteryLevel", 0x20),
   ("stopwatch.total.time", 0x30), ("stopwatch.currentLap.number", 0x31),
   ("stopwatch.currentLap.time", 0x32), ("stopwatch.currentLap.split", 0x33),
   ("stopwatch.recallLap.time", 0x34), ("stopwatch.recallLap.split", 0x35),
   ("stopwatch.lastLap.time", 0x36)]

/-- The values that the watch measures. -/
def sensor : List (String × UInt8) := [("heartRate", 0x01)]

/-- The converters. -/
def converter : List (String × UInt8) :=
  [("msToHours", 0x01), ("msToMinutesRemainder", 0x02), ("msToSecondsRemainder", 0x03),
   ("msToCsRemainder", 0x04), ("msRemainder", 0x05), ("timeToHour24", 0x10),
   ("timeToRoundedHour24", 0x11), ("timeToMinutes", 0x12), ("timeToSeconds", 0x13),
   ("timeToFiveMinutesRoundTime", 0x14), ("hour24ToHour12", 0x20),
   ("hour24ToHour12Period", 0x21), ("minutesToPastToDesignator", 0x30),
   ("minutesToPastToMinutes", 0x31)]

/-- The fonts. -/
def font : List (String × UInt8) :=
  [("optionBig", 1), ("optionNormal", 2), ("smallRegular", 3), ("smallBold", 4),
   ("normalRegular", 5), ("normalBold", 6), ("bigRegular", 7), ("bigBold", 8)]

/-- The events of the buttons.  Each has two spellings. -/
def event : List (String × UInt8) :=
  [("button_up_short", 0x01), ("buttons.up.short", 0x01),
   ("button_down_short", 0x02), ("buttons.down.short", 0x02),
   ("button_select_short", 0x03), ("buttons.select.short", 0x03),
   ("button_back_short", 0x04), ("buttons.back.short", 0x04),
   ("button_up_long", 0x11), ("buttons.up.long", 0x11),
   ("button_down_long", 0x12), ("buttons.down.long", 0x12),
   ("button_select_long", 0x13), ("buttons.select.long", 0x13),
   ("button_back_long", 0x14), ("buttons.back.long", 0x14)]

/-- The byte of a name. -/
def key? (table : List (String × UInt8)) (name : String) : Option UInt8 := table.lookup name

end Timepiece.Symbols
