/-!
# Classes of characters

A character is printable unless the Unicode character database counts it among control, format,
private and unassigned characters or among separators other than the space.
-/

namespace Buildsmith.Text

/-- The numbers that a text lists.  They are written with letters for the digits up to 25, and the
last digit of each is a capital. -/
def numbersOf (s : String) : List Nat :=
  let read : List Nat × Nat → Char → List Nat × Nat := fun (done, n) c =>
    if c.isUpper then ((26 * n + (c.toNat - 'A'.toNat)) :: done, 0)
    else (done, 26 * n + (c.toNat - 'a'.toNat))
  (s.toList.foldl read ([], 0)).1.reverse

/-- Whether a number is in a set that lengths of runs give: so many numbers are outside, so many
inside, and so on. -/
def inRunsOf : List Nat → Nat → Bool
  | outside :: inside :: lengths, n =>
    if n < outside + inside then outside ≤ n else inRunsOf lengths (n - (outside + inside))
  | _, _ => false

def unprintableLengths : List Nat :=
  numbersOf <|
    "AbGdRbIMBbbMCGEHBBBUBpHBbMCbYCDBcDIbBEGRWBhKBbWCcHCdXOcHCbXCPBbCCBBLFbFJcWBgFBICCCWBHBBDECJCCC" ++
    "EIBECBFCZCDBGECCWBHBCBCBCCBBFECCDDBHEBBHRKDBJBDBWBHBCBFCKBDBDCBPECMHHBDBICCCWBHBCBFCJCCCDHDECB" ++
    "FCSKCBGDDBEDCBBBCDCDDDMEFDDBECBGBOVFNBDBXBQCJBDBEHCBDCBCECKHWBDBXBKBFCJBDBEHCGCBECKBCNNBDBbZBD" ++
    "BGEQCbABDBSDYBJBBCHDBEGBBBIGKCDMcGEbDbLCBBBFBYBBBXCFBBBGCKCEbGcUBbKEbNBbKBPBNbLhQBBFBCoNBECHBB" ++
    "BECbPBECbHBECHBBBECPBcFBECcPCbGDbAGdICGCyQBbCDdLHWJYJUMNBDBCMdQCKGKGOBLGdLHbRFcSKbFBMEMEBDbQCF" ++
    "LbSEbAGLDcKCcNBbDCLGKGOCbFbXcZDbVBeMIcIDPDcIHbRCLIbRFuOCGCbMCGCIBBBBBBBbFCcBBPBOCGBTCDBJRYIbVR" ++
    "CCbBBNDbHPbHPfKEzNZLVcrSCbGBnLFbTBBFBCcEHCOYJHBHBHBHBHBHBHBHBeWbIbABdLMiGbAMFcLBdICdZFbRBdQBdG" ++
    "MbVBbriRDcDJnKUhCIhVFCBBBFYcHDKGcEIcSIMGeMLbEDdABLEbHBcDJOCKCdZYbCKGCGCGJHBHBcIEeWCKGqnSMXEbX" ++
    "mnCoCCeCbMHMFFbABFBBBCBCBeVQrDCcCHBbGbQGbZBTBEEFBfFEhIDGCGCGCDDHBHNCCMBbABTBCBPCObIeTFDEbTDdKB" ++
    "NDBbVbUfAbDDbXPbCEbKJbEFbRFbEBbLEObQgCCKGbKEbKEbOIcALMBPBHBCBLBPBHBCcPlZJWKIYGBbQBJcRGCBBbSBCD" ++
    "BCXBcUIJbWTBCFbHDbBFBcMcEEUCbYBCFIBDBbDCDEKHJHcMbGbNEMJcCDbDCbBFbAHEMHdCcVcDbZNbZHbUIKlIbFBbQB" ++
    "DCCdAbOIbQWbAbMbCUXJdAEbKJcKBFNZHKGcBBSIbNJdSBULSBbScNHBBBEBPBLGcHFKGEBICCCWBHBCBFBKCCCDCBGBFH" ++
    "CHDFfJdOBFbEcUIKgKcCCbMbIcRLKGNTcGGKcCbBCPEXhDcIdWdFMICBCIBCBbEBCCMJKcSICbUCLbBcUIdFNcVkDJBbTB" ++
    "OKbDDbGCWBOcVHBCBbSDBBCBJIKGGBCBbLBCBGHKlYZhBBPbYNbjNdYeHBFLhOdxKdVNbpFfzTwLmuBvXHbFBKEdDBKGbE" ++
    "CGKcSKKBHBVFTbaMdNdXcXEcFHRcMFLCOjcAIbvQbQJnfREBHBCBlFbTDREIpGdkUeDFNDJHKCEgyYbUCXJeMcIjMKbNC" ++
    "cWIeIVcSfYUMdJJZfFdHBcTBCCBCCCEBMBBBHBcNBECIBHBbCBEBFBBDHBnCClGCbbAPFBPbqMbFiRHBRCHBCBFiFbTDOC" ++
    "KECmIbFRcGFBbwAHBEBCBPBhPCQbPcYEKECbeFcQcYcJhMEBbBBCBBCBBKBEBBBBGBEBBBBBBDBCBBCBBBBBBBBBBCBBCE" ++
    "BHBEBEBBBKBRFDBFBRcACkKbSEdWMPCPBPBbLKgScEbDNbSEJHCOGfYblWFQDNDeMMdLHMEBPMEcEIKGbOIbECCdAnCMOC" ++
    "FDFDHJbDDLFGKKGIIHJfRBcDbLKbnQclfCbGgdTHiOCinQOlbLepJuWcfYhhZbotmRjGlecU"

def isPrintable (c : Char) : Bool :=
  let n := c.toNat
  if n < 0x7F then 0x20 ≤ n else !inRunsOf unprintableLengths n

/-! ## Letters and numerals -/

def wordLengths : List Nat :=
  numbersOf <|
    "gOBHCBBDCBDBXBbFBrQEMOFHBBBeZFBCCEBBGBBDBBBUBdFBfJIgKBbMCBGbPcTbBEEbTbRVKECBdVBBPCHPCBQBBbEbD" ++
    "dLLBObRJCEBFWEBJBDBXZHLFYBGRbQcGcCDBSBHKEKBQEICCCWBHBBDEDBQBNCBDEMCGCBIGECCWBHBCBCBCbFEBBHKCDQ" ++
    "JBDBWBHBCBFDBSBPCEKJBLICCCWBHBCBFDBbECBDEKBHLBBGDDBEDCBBBCDCDDDMWBVNSIBDBXBQDBbADCBCCEKIHBBEIB" ++
    "DBXBKBFDBbFCBCEKBCRJBDBbPCBQBFDBKETBGFSDYBJBBCHbFKRbWBCMHJKbNCBBBFBYBBBKBCJBCFBBJKCEbGBbFUMIB" ++
    "bKbBFeLbRULGGEEDBDCHDENMBBKGbMBBFBCbRBmVBECHBBBECbPBECbHBECHBBBECPBcFBECcPOUDQQdICGDxWCRBbAFcX" ++
    "DLHSNTOSONBDPcAbJBEBDKGKWKGdLHFCbIBBFcSKbFbNbOCFLbSEbAGLbLXJcBbRKGKNBdPbVRIDKbPbENcEbAbKbCKDbX" ++
    "CJHbRCDbPEBGBCDBFhKcMkSCGCbMCGCIBBBBBBBbFCcBBHBBDDBHDECGENFDBHeLCCGFLGNdXBEBCKBBDFGBBBBBBEBLCE" ++
    "FFEBBcGbbYcIdAWyGbEbrOiVGEDCJBCbMBBFBCcEHBQXJHBHBHBHBHBHBHBHdCBsBDZJHFCFEdIGDBdMBEFbRBdQDEKbG" ++
    "bWQbGKbEIBPbGKbNPmIjtOcMbguFcPbUCkJDbCUbVQbFCdCbNJCdZCcMFCBBBFYQBDBEBXNGKcAObYbCKYGDBBCBbMKXZ" ++
    "bDHbVbCLGFBZBbPXDBIEKGXDBDbYBBDCCFCBBBYDCLHDMGCGCGJHBHBbRBOGeLNKGqnSMXEbXmnCoCCeCbMHMFFBBKBNBF" ++
    "BBBCBCBeEbHnZScMCcCbOMeMFBfFTKHbAGbALdLDGCGCGCDbJMBbABTBCBPCObIeTMbTMcFRCjKbDDbXQbBEbKJbEFbMK" ++
    "bECbKEIBFbQgCCKGbKEbKEbOIcAMLBPBHBCBLBPBHBCcPlZJWKIYGBbQBJcRGCBBbSBCDBCXCbFCbMIJbWTBCFbHEbAcS" ++
    "cEEUCbVPEBDBbDKJXbFBbGbGIBbCGFQcCKWCbBFbAXHdCcVcDbZNbZHbQMKlIbFBbQGCdAbOIWLEbBSbUbCUXMcBbAbEBC" ++
    "CBNbTbGZHKJbKPKEBCBIbJDBMbWOELLBBEULSBZdGHBBBEBPBKHbVRKLICCCWBHBCBFDBSBMFgCcBSEFKFDbEbWUCBBIK" ++
    "gKbVbPEbKbWUBLKbMbRNBHKcCbBVMEHhDbSeMdFMICBCIBCBYPBBBOKcSICbNQBBBbCBKbOHBVBLbUTBScVkDJBbLRBPbD" ++
    "FbEeIHBCBbMVBJKGGBCBbGOBHKlYThHBPVbRbjMdYeHRhOdxKdTPbpFfzTwLmuBvXHbFBKGdBBKGbESbWQEMKBHBVFTbaM" ++
    "dJeBcXFBcONcMCBBbCjcAIbvQbQJnfREBHBCBlFbTDREIpGdkUeDFNDJHKilIUeEZfFdHBcTBCCBCCCEBMBBBHBcNBECIB" ++
    "HBbCBEBFBBDHBnCCZBZBbFBZBbFBZBbFBZBbFBZBICbYcqYbFsNbTKHCKEBmJbESbSEKbwGHBEBCBPBhPCJbWcQHBEKbeL" ++
    "cHBDBEcYbTBPhMEBbBBCBBCBBKBEBBBBGBEBBBBBBDBCBBCBBBBBBBBBBCBBCEBHBEBEBBBKBRFDBFBRwINedFKbnQclfC" ++
    "bGgdTHiOCinQOlbLepJuWcfYhhZ"

def isLetterOrNumeral (c : Char) : Bool :=
  if c.toNat < 128 then c.isAlphanum
  else inRunsOf wordLengths c.toNat

def isWordChar (c : Char) : Bool :=
  c = '_' || isLetterOrNumeral c

/-!
## Letter case

The case of letters follows the Unicode character database.  The map to lower case lists runs of code
points: the first one, the last one, the distance between neighbours and what is added to each.
-/

/-- Reads runs, each given by its distance from the one before, the number of its steps, their
length and twice what is added, less one if that is negative. -/
def shiftsFrom (start : Nat) : List Nat → List (Nat × Nat × Nat × Int)
  | gap :: steps :: step :: shift :: ns =>
    let last := start + gap + steps * step
    let added : Int := if shift % 2 = 0 then shift / 2 else -((shift + 1) / 2)
    (start + gap, last, step, added) :: shiftsFrom last ns
  | _ => []

/-- Runs of letters that have a lower-case form, and the distance to it. -/
def lowerShifts : List (Nat × Nat × Nat × Int) :=
  shiftsFrom 0 <| numbersOf <|
    "cNZBcMdYWBcMCGBcMbIXCCECCCDHCCDWCCCABjHBCCCEABqEBBCCCABpWBABCCBBpUBABCDABgCBABpOBABpQBABCCABpU" ++
    "BABpYCABqGBABqCBABCEABqGBABqKCABqMBCCCCABqUBABCCABqUDABCCABqUBABCCBBqSBBCCCABqWBABCEABCIABEBAB" ++
    "CCABEBABCCABEBICCDICCDABEBBCCCABhLBABeHBTCCCABjZCICCIABbfyKBABCCABmNBABbfyEDABCCABoZBABfIBABfM" ++
    "BECClEBCCEABCJABiYHABcYCCBcWCABeYCBBeWCQBcMCIBcMbKABQJLCCGABePDABCCABNBABCDCBjZBPBgEBbFBcMbXQC" ++
    "CKbACCCABbEBGCCDbVCCDbLBdSehEbLBvmUCABvmUGABvmUbbVdBBekzOBFBQdgTbQBixJDCBixJmJcWCCKABwnTCbVCCK" ++
    "HBPJFBPLHBPJHBPJFBPMDCPJHBPZHBPJHBPJHBPJBBPBBBfRBABRMDBgPBABRMBBPBBBhRNBBPBBBiPBABNMBBjVBBBjRB" ++
    "ABRlMABwgFEAByuVBABylNHABcEbUPBbGUABCbfNZBcAcsVbVBdSbXABCCABbfuJBABlhJBABbftDDCCCCABbfxFBAB" ++
    "bfuVBABbfxLBABbfxJCABCDABCJBBbfzXBbXCCJBCCFABCbtyKWCCUNCCfGGCCEbECCLBCCCABeanVBECCFABCCABevcHD" ++
    "BCCEJCCCABeveLBABevfHBABeveZBABeveFBABeveLCABevaPBABevcLBABevaVBABctKBHCCCABdRBABeveJBABearVBB" ++
    "CCHABCGBCCbDABCbhaIZBcMbvAbNBdCfHbJBdCgBKBdACOBdACGBdACBBdAcqDbYBeYenMbFBcMbgjXbFBcMbulLbHBcQ"

/-- The lengths of the runs of capital letters without a lower-case form. -/
def capitalLengths : List Nat :=
  numbersOf <|
    "lSBzXDlbHBEBDDCDCBDFGBDBDCCCBBKCFBgiqKbAbAbAbAbAbABBCCBCCCEBIbAbAbACBECIBHbBCBEBFBBDHbBbAbAbA" ++
    "bAbAbAbAbAbAbAbAbEZbHZbHZbHZbHZbHBjqBbAGbAGbA"

/-- The lengths of the runs of small letters that are the lower-case form of no letter. -/
def smallLengths : List Nat :=
  numbersOf <|
    "gOBKBEBeOBGBQBcBBNBNBOCOBDBbXBbWBSGbBBCBBBCDCBBBCBFCBBCCBHBCBBCDGFBBBICbAHCbEFdSBcABVBbFBRBNCD" ++
    "CZCDBGBnRBbMCisDJePeRBDBQBbXiGIBBgUBBBBBBBdNBBBBCGBDBBBBCKCCCKDBCKBBBBCeRBNBQNeFBDCDBbBBEBEBCC" ++
    "IEefVBCBCHdYBbucLCfQCcKJVBGBZBbJBBBbIDbfPbJBHBNbedRHMFesEBCDBbQBJczkHbAbAHBSbAbAbAEBBBHBLbAbA" ++
    "bAbAbAbAbAbAbAbAbAbAbAbAbAbAbAbCbCZBGbAZBGbAZBGbAZBGbAZBGBBcsYKBU"

/-- The lengths of the runs of letters in title case, all of which have a lower-case form. -/
def titleLengths : List Nat :=
  [453, 1, 2, 1, 2, 1, 38, 1, 7573, 8, 8, 8, 8, 8, 12, 1, 15, 1, 47, 1]

def isInRun (n : Nat) : Nat × Nat × Nat × Int → Bool
  | (a, b, step, _) => a ≤ n && n ≤ b && (n - a) % step == 0

def capitalsOf (c : Char) : List Char :=
  lowerShifts.filterMap fun r =>
    let n := ((c.toNat : Int) - r.2.2.2).toNat
    if isInRun n r then some (Char.ofNat n) else none

def isTitleChar (c : Char) : Bool := inRunsOf titleLengths c.toNat

def isUpperChar (c : Char) : Bool :=
  (lowerShifts.any (isInRun c.toNat) && !isTitleChar c) || inRunsOf capitalLengths c.toNat

def isLowerChar (c : Char) : Bool :=
  !(capitalsOf c).isEmpty || inRunsOf smallLengths c.toNat

def isCased (c : Char) : Bool := isUpperChar c || isLowerChar c || isTitleChar c

def isUpper (s : String) : Bool :=
  s.toList.any isUpperChar && s.toList.all fun c => !isLowerChar c && !isTitleChar c

def lowerChar (c : Char) : List Char :=
  if c.toNat < 128 then [c.toLower]
  else if c.toNat = 304 then ['i', Char.ofNat 0x307]
  else
    match lowerShifts.find? (isInRun c.toNat) with
    | some (_, _, _, shift) => [Char.ofNat ((c.toNat : Int) + shift).toNat]
    | none => [c]

def lowerLetter (c : Char) : Char := (lowerChar c).headD c

/-- Families of lower-case letters that have one upper-case form in common. -/
def letterFamilies : List (List Nat) :=
  [[0x69, 0x131], [0x73, 0x17f], [0xb5, 0x3bc], [0x345, 0x3b9, 0x1fbe], [0x390, 0x1fd3],
   [0x3b0, 0x1fe3], [0x3b2, 0x3d0], [0x3b5, 0x3f5], [0x3b8, 0x3d1], [0x3ba, 0x3f0],
   [0x3c0, 0x3d6], [0x3c1, 0x3f1], [0x3c2, 0x3c3], [0x3c6, 0x3d5], [0x432, 0x1c80],
   [0x434, 0x1c81], [0x43e, 0x1c82], [0x441, 0x1c83], [0x442, 0x1c84, 0x1c85], [0x44a, 0x1c86],
   [0x463, 0x1c87], [0x1c88, 0xa64b], [0x1e61, 0x1e9b], [0xfb05, 0xfb06]]

/-- The lower-case letters that have their upper-case form in common with a lower-case letter. -/
def letterFamily (c : Char) : List Char :=
  match letterFamilies.find? (·.contains c.toNat) with
  | some family => family.map Char.ofNat
  | none => [c]

def letterForms (c : Char) : List Char :=
  (if c = 'i' then [c, Char.ofNat 304] else [c]) ++ capitalsOf c

def caseVariants (c : Char) : List Char :=
  (letterFamily (lowerLetter c)).flatMap letterForms

/-- Marks that neither end a word nor belong to its letters: apostrophes, points, accents. -/
def isWordMark (c : Char) : Bool :=
  let n := c.toNat
  "'.:^\x60\u00a8\u00ad\u00af\u00b4\u00b7\u00b8\u2018\u2019\u2024\u2027".toList.contains c ||
    (0x2B0 ≤ n && n ≤ 0x36F) || (0x483 ≤ n && n ≤ 0x489) || (0x200B ≤ n && n ≤ 0x200F)

/-- Lower-case forms; a capital sigma at the end of a word has a form of its own. -/
def lowerFrom : Bool → List Char → List Char
  | _, [] => []
  | afterLetter, c :: cs =>
    let endsWord := !((cs.dropWhile isWordMark).head?.any isCased)
    if c.toNat = 0x3A3 && afterLetter && endsWord then Char.ofNat 0x3C2 :: lowerFrom true cs
    else lowerChar c ++ lowerFrom (if isWordMark c then afterLetter else isCased c) cs

def lower (s : String) : String :=
  String.ofList (lowerFrom false s.toList)

end Buildsmith.Text
