/-!
# Characters of YAML

Which characters a YAML text may hold, and the classes its grammar is stated in. The character with
code zero never occurs in a text that may be read, so it stands for the end of the text.
-/

namespace EnumDecl.Yaml

/-- The character past the end of a text. -/
def endMark : Char := '\x00'

/-- Line feed, next line, line separator and paragraph separator. -/
def isFeed (c : Char) : Bool := c == '\n' || c == '\u0085' || c == '\u2028' || c == '\u2029'

/-- What ends a line; a carriage return does so, too. -/
def isBreak (c : Char) : Bool := c == '\r' || isFeed c

/-- The end of a line or of the text. -/
def isBreakOrEnd (c : Char) : Bool := c == endMark || isBreak c

/-- A space, the end of a line or of the text. -/
def isSpaceOrEnd (c : Char) : Bool := c == ' ' || isBreakOrEnd c

/-- White space, the end of a line or of the text. -/
def isBlank (c : Char) : Bool := c == '\t' || isSpaceOrEnd c

/-- Tells whether a text may hold a character: no controls but tab and line ends, and no code
points that are set apart as no characters. -/
def isAllowed (c : Char) : Bool :=
  c == '\t' || c == '\n' || c == '\r' || (0x20 ≤ c.toNat && c.toNat ≤ 0x7E) || c == '\u0085' ||
    (0xA0 ≤ c.toNat && c.toNat ≤ 0xFFFD) || 0x10000 ≤ c.toNat

/-- Letters, digits, dash and underscore, of which names of anchors, handles and directives are
made. -/
def isNameChar (c : Char) : Bool := c.isAlphanum || c == '-' || c == '_'

/-- What a tag may be made of. -/
def isTagChar (c : Char) : Bool := c.isAlphanum || "-;/?:@&=+$,_.!~*'()[]%".toList.contains c

/-- The brackets, braces and the comma that structure text within brackets. -/
def isFlowIndicator (c : Char) : Bool := ",[]\x7b\x7d".toList.contains c

/-- What no plain text begins with. -/
def isIndicator (c : Char) : Bool := "#,[]\x7b\x7d&*!|>'\"%@\x60".toList.contains c

end EnumDecl.Yaml
