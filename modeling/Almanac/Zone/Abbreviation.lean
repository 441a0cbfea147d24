/-!
# Abbreviations of time zones

A date and time can be followed by one of these abbreviations, in letters of either
case.  Each stands for one offset, whatever the date; some letters are used by several
zones, and then one of them is meant.

Main definitions:

- `abbreviations`, `abbreviationOffset?`: the abbreviations and their offsets in seconds.
- `abbreviationNames`, `isAbbreviation`: the words that are read as an abbreviation.
-/

namespace Almanac.Zone

/-- The abbreviations, and by how many seconds each is ahead of UTC. -/
def abbreviations : List (String × Int) :=
  [("UTC", 0), ("GMT", 0),
    ("EST", -5 * 3600), ("CST", -6 * 3600), ("MST", -7 * 3600), ("PST", -8 * 3600),
    ("EDT", -4 * 3600), ("CDT", -5 * 3600), ("MDT", -6 * 3600), ("PDT", -7 * 3600),
    ("CET", 3600), ("CEST", 2 * 3600), ("JST", 9 * 3600), ("IST", 5 * 3600 + 30 * 60),
    ("BST", 3600), ("AEST", 10 * 3600), ("AEDT", 11 * 3600)]

/-- The offset that an abbreviation stands for. -/
def abbreviationOffset? (name : List Char) : Option Int :=
  abbreviations.lookup (String.ofList (name.map Char.toUpper))

/-- The words that are read as an abbreviation, kept apart from the offsets. -/
def abbreviationNames : List String :=
  ["UTC", "GMT", "EST", "CST", "MST", "PST", "EDT", "CDT", "MDT", "PDT", "CET", "CEST", "JST",
    "IST", "BST", "AEST", "AEDT"]

/-- The length of the shortest abbreviation. -/
def minAbbreviationLength : Nat := 3

/-- The length of the longest abbreviation. -/
def maxAbbreviationLength : Nat := 4

/-- Whether a word is read as an abbreviation. -/
def isAbbreviation (name : List Char) : Bool :=
  abbreviationNames.any fun known => known.toList.map Char.toLower == name.map Char.toLower

end Almanac.Zone
