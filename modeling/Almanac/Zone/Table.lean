import Almanac.Zone.Rule

/-!
# The table of named zones

The zones that can be chosen by name, with their transitions from the year 2000 on.
A zone whose rules are still in force has its transitions to the end of 2099; after
the last of them its offset stays.

Main definitions:

- `Zone.named`: all of them.
- `Zones`, `Zones.known`: the zones that one can choose from.
- `Zones.ofName?`: the zone of a name, which has to be spelled exactly.
-/

namespace Almanac.Zone

/-- A zone with one offset for all time. -/
private def constant (name : String) (regime : Regime) : Zone where
  name := name
  initial := regime
  transitions := []

/-- Coordinated Universal Time. -/
def utc : Zone :=
  constant "UTC" { offset := 0, abbreviation := "UTC", offset_bound := Regime.zero_bound }

/-- Japan. -/
def tokyo : Zone := constant "Asia/Tokyo" { offset := 32400, abbreviation := "JST" }

/-- India. -/
def kolkata : Zone := constant "Asia/Kolkata" { offset := 19800, abbreviation := "IST" }

/-- Nepal. -/
def kathmandu : Zone := constant "Asia/Kathmandu" { offset := 20700, abbreviation := "+0545" }

/-- Five hours behind UTC. -/
def fiveBehind : Zone := constant "Etc/GMT+5" { offset := -18000, abbreviation := "-05" }

/-- New York.  Local mean time was used until noon of 18 November 1883. -/
def newYork : Zone :=
  let standard : Regime := { offset := -18000, abbreviation := "EST" }
  let summer : Regime := { offset := -14400, abbreviation := "EDT" }
  { name := "America/New_York"
    initial := { offset := -17762, abbreviation := "LMT" }
    transitions :=
      begins 1883 11 18 17 0 standard ::
      seasons 2000 7 [⟨4, .first, 7, 0, summer⟩, ⟨10, .last, 6, 0, standard⟩] ++
      seasons 2007 93 [⟨3, .second, 7, 0, summer⟩, ⟨11, .first, 6, 0, standard⟩] }

/-- Newfoundland. -/
def stJohns : Zone :=
  let standard : Regime := { offset := -12600, abbreviation := "NST" }
  let summer : Regime := { offset := -9000, abbreviation := "NDT" }
  { name := "America/St_Johns"
    initial := standard
    transitions :=
      seasons 2000 7 [⟨4, .first, 3, 31, summer⟩, ⟨10, .last, 2, 31, standard⟩] ++
      seasons 2007 4 [⟨3, .second, 3, 31, summer⟩, ⟨11, .first, 2, 31, standard⟩] ++
      seasons 2011 1 [⟨3, .second, 3, 31, summer⟩, ⟨11, .first, 4, 30, standard⟩] ++
      seasons 2012 88 [⟨3, .second, 5, 30, summer⟩, ⟨11, .first, 4, 30, standard⟩] }

/-- Germany. -/
def berlin : Zone :=
  let standard : Regime := { offset := 3600, abbreviation := "CET" }
  let summer : Regime := { offset := 7200, abbreviation := "CEST" }
  { name := "Europe/Berlin"
    initial := standard
    transitions := seasons 2000 100 [⟨3, .last, 1, 0, summer⟩, ⟨10, .last, 1, 0, standard⟩] }

/-- Great Britain. -/
def london : Zone :=
  let standard : Regime := { offset := 0, abbreviation := "GMT", offset_bound := Regime.zero_bound }
  let summer : Regime := { offset := 3600, abbreviation := "BST" }
  { name := "Europe/London"
    initial := standard
    transitions := seasons 2000 100 [⟨3, .last, 1, 0, summer⟩, ⟨10, .last, 1, 0, standard⟩] }

/-- Lord Howe Island, where summer time is half an hour. -/
def lordHowe : Zone :=
  let standard : Regime := { offset := 37800, abbreviation := "+1030" }
  let summer : Regime := { offset := 39600, abbreviation := "+11" }
  { name := "Australia/Lord_Howe"
    initial := summer
    transitions := [
      begins 2000 3 25 15 0 standard,
      begins 2000 8 26 15 30 summer,
      begins 2001 3 24 15 0 standard,
      begins 2001 10 27 15 30 summer,
      begins 2002 3 30 15 0 standard,
      begins 2002 10 26 15 30 summer,
      begins 2003 3 29 15 0 standard,
      begins 2003 10 25 15 30 summer,
      begins 2004 3 27 15 0 standard,
      begins 2004 10 30 15 30 summer,
      begins 2005 3 26 15 0 standard,
      begins 2005 10 29 15 30 summer,
      begins 2006 4 1 15 0 standard,
      begins 2006 10 28 15 30 summer,
      begins 2007 3 24 15 0 standard,
      begins 2007 10 27 15 30 summer] ++
      seasons 2008 92 [⟨4, .first, -9, 0, standard⟩, ⟨10, .first, -9, 30, summer⟩] }

/-- São Paulo, where summer time ended in 2019. -/
def saoPaulo : Zone :=
  let brt : Regime := { offset := -10800, abbreviation := "-03" }
  let brst : Regime := { offset := -7200, abbreviation := "-02" }
  { name := "America/Sao_Paulo"
    initial := brst
    transitions := [
      begins 2000 2 27 2 0 brt,
      begins 2000 10 8 3 0 brst,
      begins 2001 2 18 2 0 brt,
      begins 2001 10 14 3 0 brst,
      begins 2002 2 17 2 0 brt,
      begins 2002 11 3 3 0 brst,
      begins 2003 2 16 2 0 brt,
      begins 2003 10 19 3 0 brst,
      begins 2004 2 15 2 0 brt,
      begins 2004 11 2 3 0 brst,
      begins 2005 2 20 2 0 brt,
      begins 2005 10 16 3 0 brst,
      begins 2006 2 19 2 0 brt,
      begins 2006 11 5 3 0 brst,
      begins 2007 2 25 2 0 brt,
      begins 2007 10 14 3 0 brst,
      begins 2008 2 17 2 0 brt,
      begins 2008 10 19 3 0 brst,
      begins 2009 2 15 2 0 brt,
      begins 2009 10 18 3 0 brst,
      begins 2010 2 21 2 0 brt,
      begins 2010 10 17 3 0 brst,
      begins 2011 2 20 2 0 brt,
      begins 2011 10 16 3 0 brst,
      begins 2012 2 26 2 0 brt,
      begins 2012 10 21 3 0 brst,
      begins 2013 2 17 2 0 brt,
      begins 2013 10 20 3 0 brst,
      begins 2014 2 16 2 0 brt,
      begins 2014 10 19 3 0 brst,
      begins 2015 2 22 2 0 brt,
      begins 2015 10 18 3 0 brst,
      begins 2016 2 21 2 0 brt,
      begins 2016 10 16 3 0 brst,
      begins 2017 2 19 2 0 brt,
      begins 2017 10 15 3 0 brst,
      begins 2018 2 18 2 0 brt,
      begins 2018 11 4 3 0 brst,
      begins 2019 2 17 2 0 brt] }

/-- Samoa, which left out 30 December 2011 to move across the date line. -/
def apia : Zone :=
  let minus11 : Regime := { offset := -39600, abbreviation := "-11" }
  let minus10 : Regime := { offset := -36000, abbreviation := "-10" }
  let plus13 : Regime := { offset := 46800, abbreviation := "+13" }
  let plus14 : Regime := { offset := 50400, abbreviation := "+14" }
  { name := "Pacific/Apia"
    initial := minus11
    transitions := [
      begins 2010 9 26 11 0 minus10,
      begins 2011 4 2 14 0 minus11,
      begins 2011 9 24 14 0 minus10,
      begins 2011 12 30 10 0 plus14,
      begins 2012 3 31 14 0 plus13,
      begins 2012 9 29 14 0 plus14,
      begins 2013 4 6 14 0 plus13,
      begins 2013 9 28 14 0 plus14,
      begins 2014 4 5 14 0 plus13,
      begins 2014 9 27 14 0 plus14,
      begins 2015 4 4 14 0 plus13,
      begins 2015 9 26 14 0 plus14,
      begins 2016 4 2 14 0 plus13,
      begins 2016 9 24 14 0 plus14,
      begins 2017 4 1 14 0 plus13,
      begins 2017 9 23 14 0 plus14,
      begins 2018 3 31 14 0 plus13,
      begins 2018 9 29 14 0 plus14,
      begins 2019 4 6 14 0 plus13,
      begins 2019 9 28 14 0 plus14,
      begins 2020 4 4 14 0 plus13,
      begins 2020 9 26 14 0 plus14,
      begins 2021 4 3 14 0 plus13] }

/-- The zones that have a name. -/
def named : List Zone :=
  [newYork, saoPaulo, stJohns, kathmandu, kolkata, tokyo, lordHowe, fiveBehind, berlin, london,
    apia, utc]

end Almanac.Zone

namespace Almanac

/-- The zones that one can choose from. -/
structure Zones where
  /-- The zone of the machine. -/
  here : Zone
  /-- The zones that have a name. -/
  named : List Zone

namespace Zones

/-- The zone with the given name. -/
def ofName? (zones : Zones) (name : String) : Option Zone :=
  zones.named.find? (·.name == name)

/-- The zones that are known here, and a machine without an offset. -/
def known : Zones where
  here := Zone.zero
  named := Zone.named

end Zones

end Almanac
