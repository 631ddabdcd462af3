import ApiClient.Text.Utf8

/-!
# Multipart form data

Form fields as the body of a request: for each field a line with the boundary, a header with its name and, after an
empty line, its text; at the end the boundary with two more hyphens.  A form without fields has no body at all.

Reading looks for the boundary at the start of a line, takes the name from the header of each part, and needs the
final boundary.
-/

namespace ApiClient.PetStore.Multipart

/-- The end of a line. -/
def lineEnd : List UInt8 := [13, 10]

/-- What stands before the boundary in a content type. -/
def typeLead : String := "multipart/form-data; boundary="

/-- The content type that announces a boundary. -/
def contentType (boundary : String) : String := typeLead ++ boundary

/-- The boundary that a content type announces. -/
def boundary? (contentType : String) : Option String :=
  if typeLead.toList.isPrefixOf contentType.toList then
    some (String.ofList (contentType.toList.drop typeLead.toList.length))
  else none

/-- A boundary line without its end. -/
def delimiter (boundary : String) : List UInt8 := Text.Utf8.bytes ("--" ++ boundary)

/-- What stands before the name of a field. -/
def nameLead : String := "Content-Disposition: form-data; name=\""

/-- One field. -/
def encodeField (boundary : String) (field : String × String) : List UInt8 :=
  delimiter boundary ++ lineEnd ++ Text.Utf8.bytes (nameLead ++ field.1 ++ "\"") ++ lineEnd ++ lineEnd ++
    Text.Utf8.bytes field.2 ++ lineEnd

/-- The body for some fields. -/
def encode (boundary : String) (fields : List (String × String)) : List UInt8 :=
  if fields.isEmpty then []
  else fields.flatMap (encodeField boundary) ++ delimiter boundary ++ Text.Utf8.bytes "--" ++ lineEnd

/-- Whether a field can be told from the marks around it: its name has no quotes and no line break, its text no line
break and no byte order mark at the front. -/
def isFramed (field : String × String) : Bool :=
  !field.1.toList.contains '"' && !field.1.toList.contains '\r' && !field.2.toList.contains '\r' &&
    field.2.toList.head? != some (Char.ofNat 0xFEFF)

/-- `bs` up to the first occurrence of `mark`, and what follows it. -/
def splitAt? (mark : List UInt8) : List UInt8 → Option (List UInt8 × List UInt8)
  | [] => if mark.isEmpty then some ([], []) else none
  | b :: rest =>
    if mark.isPrefixOf (b :: rest) then some ([], (b :: rest).drop mark.length)
    else (splitAt? mark rest).map fun (before, after) => (b :: before, after)

/-- The name in the header of a part, empty if there is none. -/
def fieldName (header : List UInt8) : String :=
  match splitAt? (Text.Utf8.bytes "name=\"") header with
  | some (_, rest) => String.ofList (Text.Utf8.decodeLossy (rest.takeWhile fun b => b != 34))
  | none => ""

/-- The text of a part: broken bytes replaced, a byte order mark at the front dropped. -/
def fieldText (bs : List UInt8) : String :=
  match Text.Utf8.decodeLossy bs with
  | c :: rest => String.ofList (if c = Char.ofNat 0xFEFF then rest else c :: rest)
  | [] => ""

/-- The fields that follow a boundary, at most as many as `fuel`. -/
def decodeAfter? (boundary : String) : Nat → List UInt8 → Option (List (String × String))
  | 0, _ => none
  | fuel + 1, bs =>
    if (Text.Utf8.bytes "--").isPrefixOf bs then some []
    else do
      let rest ← if lineEnd.isPrefixOf bs then some (bs.drop 2) else none
      let (header, rest) ← splitAt? (lineEnd ++ lineEnd) rest
      let (text, rest) ← splitAt? (lineEnd ++ delimiter boundary) rest
      let fields ← decodeAfter? boundary fuel rest
      return (fieldName header, fieldText text) :: fields

/-- The fields of a body. -/
def decode? (boundary : String) (bs : List UInt8) : Option (List (String × String)) := do
  let (_, rest) ← splitAt? (delimiter boundary) bs
  decodeAfter? boundary (rest.length + 1) rest

end ApiClient.PetStore.Multipart
