import DesignTokens.Text.LetterCase.Table

namespace DesignTokens.Text

def isUppercase (c : Char) : Bool :=
  if c.toNat < 128 then c.isUpper else CodePointRun.coversAny uppercaseRuns c

def isLowercase (c : Char) : Bool :=
  if c.toNat < 128 then c.isLower else CodePointRun.coversAny lowercaseRuns c

def isCased (c : Char) : Bool :=
  isUppercase c || isLowercase c || CodePointRun.coversAny titlecaseRuns c

def isCaseIgnorable (c : Char) : Bool :=
  if c.toNat < 128 then ['\'', '.', ':', '^', '\x60'].contains c
  else CodePointRun.coversAny caseIgnorableRuns c

def shifted (table : List CaseShift) (c : Char) : Char :=
  match table.find? (·.run.covers c.toNat) with
  | some entry => Char.ofNat (c.toNat + entry.shift).toNat
  | none => c

def toUpper (c : Char) : List Char :=
  if c.toNat < 128 then [c.toUpper]
  else match upperExpansions.lookup c.toNat with
    | some codes => codes.map Char.ofNat
    | none => [shifted upperShifts c]

def toLower (c : Char) : List Char :=
  if c.toNat < 128 then [c.toLower]
  else if c = 'İ' then ['i', Char.ofNat 0x307]
  else [shifted lowerShifts c]

def startsCased (cs : List Char) : Bool :=
  ((cs.dropWhile isCaseIgnorable).head?.map isCased).getD false

def lowerSigma (before after : List Char) : Char :=
  if startsCased before && !startsCased after then 'ς' else 'σ'

/-- Lower case of a text of which `before`, read backwards, has been mapped already. -/
def lowercaseAfter (before : List Char) : List Char → List Char
  | [] => []
  | c :: rest =>
    (if c = 'Σ' then [lowerSigma before rest] else toLower c) ++ lowercaseAfter (c :: before) rest

def lowercase (cs : List Char) : List Char := lowercaseAfter [] cs

def uppercase (cs : List Char) : List Char := cs.flatMap toUpper

def capitalize : List Char → List Char
  | [] => []
  | c :: rest => toUpper c ++ rest.flatMap toLower

end DesignTokens.Text
