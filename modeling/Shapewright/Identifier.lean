/-!
# Identifiers

Names in a design are free text; names in generated code are identifiers. This module turns
the one into the other. A name is cut into words at every character that is not an ASCII letter
or digit; the words are capitalised and joined, well-known acronyms are written in one case, and
the result is made an identifier: an empty result is replaced, a leading digit is preceded by a
letter, and a name that is not exported gives way to the keywords of Go.

All definitions work on lists of characters; the functions on `String` wrap them.
-/

namespace Shapewright
namespace Identifier

/-- Words that are written in one case throughout, given in upper case. -/
def acronyms : List (List Char) :=
  ["ACL", "API", "ASCII", "CPU", "CSS", "DNS", "EOF", "GUID", "HTML", "HTTP", "HTTPS", "ID", "IP",
    "JSON", "JWT", "LHS", "OK", "QPS", "RAM", "RHS", "RPC", "SLA", "SMTP", "SQL", "SSH", "TCP",
    "TLS", "TTL", "UDP", "UI", "UID", "UUID", "URI", "URL", "UTF8", "VM", "XML", "XSRF",
    "XSS"].map String.toList

/-- The keywords of Go. -/
def keywords : List (List Char) :=
  ["break", "case", "chan", "const", "continue", "default", "defer", "else", "fallthrough", "for",
    "func", "go", "goto", "if", "import", "interface", "map", "package", "range", "return",
    "select", "struct", "switch", "type", "var"].map String.toList

/-- The words of a name: its longest runs of ASCII letters and digits, in order. -/
def words (s : List Char) : List (List Char) :=
  (s.foldr
    (fun c ws => if c.isAlphanum then (c :: ws.headD []) :: ws.tail else [] :: ws)
    [[]]).filter (· ≠ [])

/-- Upper case, for ASCII letters. -/
def upper (w : List Char) : List Char := w.map Char.toUpper

/-- Lower case, for ASCII letters. -/
def lower (w : List Char) : List Char := w.map Char.toLower

/-- Whether the word is an acronym, in whatever case it is written. -/
def isAcronym (w : List Char) : Bool := acronyms.contains (upper w)

/-- A word inside an identifier: acronyms in upper case, other words with their first letter
    raised. -/
def capital (w : List Char) : List Char :=
  if isAcronym w then upper w
  else match w with
    | [] => []
    | c :: r => c.toUpper :: r

/-- The first word of an identifier that is not exported: acronyms in lower case, other words
    with their first letter lowered. -/
def lowered (w : List Char) : List Char :=
  if isAcronym w then lower w
  else match w with
    | [] => []
    | c :: r => c.toLower :: r

/-- Makes the joined words an identifier: `empty` stands in for nothing at all, and `lead` goes
    before a digit. -/
def anchored (empty : List Char) (lead : Char) (s : List Char) : List Char :=
  match s with
  | [] => empty
  | c :: r => if c.isDigit then lead :: c :: r else c :: r

/-- A keyword is told apart by an underscore. -/
def unreserved (s : List Char) : List Char :=
  if keywords.contains s then s ++ ['_'] else s

/-- The exported identifier of a name, on characters. -/
def exportedChars (s : List Char) : List Char :=
  anchored "Val".toList 'V' ((words s).flatMap capital)

/-- The identifier of a name that is not exported, on characters. It starts with a small letter, and
    is marked by an underscore where it would be a keyword. -/
def unexportedChars (s : List Char) : List Char :=
  unreserved (anchored "val".toList 'v'
    (match words s with
      | [] => []
      | w :: ws => lowered w ++ ws.flatMap capital))

/-- The number of capitals that are lowered at the head of an identifier: all that lead it, up to
    the one that opens the next word. -/
def headLength (s : List Char) : Nat :=
  let run := (s.takeWhile Char.isUpper).length
  let opensWord := (s.drop run).head?.any Char.isLower
  if run > 1 && opensWord then run - 1 else max run 1

/-- Lowers the head of an identifier that is already camel-cased. -/
def lowerHead (s : List Char) : List Char :=
  lower (s.take (headLength s)) ++ s.drop (headLength s)

/-- An identifier that is not exported, of one that is. -/
def lowerCamelChars (s : List Char) : List Char := unreserved (lowerHead s)

/-- The exported identifier of a name: `user_id` becomes `UserID`. -/
def exported (name : String) : String := String.ofList (exportedChars name.toList)

/-- The identifier of a name that is not exported: `user_id` becomes `userID`. -/
def unexported (name : String) : String := String.ofList (unexportedChars name.toList)

/-- `IDToTag` becomes `idToTag`. -/
def lowerCamel (ident : String) : String := String.ofList (lowerCamelChars ident.toList)

end Identifier
end Shapewright
