import Spreadsheet.Decimal.Numeral

/-! # Targets
A **target** is a path, followed by a query after a question mark and a fragment after a hash sign,
which are ignored; a scheme and an authority in front of the path are ignored too. In a part of a
path a percent sign with two hexadecimal digits stands for an **octet**. -/

namespace Spreadsheet.Http.Target

/-- Whether a character ends a path. -/
def endsPath (c : Char) : Bool := c = '?' || c = '#'

/-- A text without a scheme and an authority in front of it. -/
def withoutAuthority (text : List Char) : List Char :=
  match text.dropWhile fun c => c ≠ ':' && c ≠ '/' && !endsPath c with
  | ':' :: '/' :: '/' :: rest =>
    match rest.dropWhile fun c => c ≠ '/' && !endsPath c with
    | '/' :: path => '/' :: path
    | _ => ['/']
  | _ => text

/-- The path of a target. -/
def path (target : String) : List Char :=
  (withoutAuthority target.toList).takeWhile fun c => !endsPath c

/-- The octets that a part of a path stands for. A percent sign that is not followed by two digits
stands for itself. -/
def octets : List Char → List UInt8
  | [] => []
  | '%' :: high :: low :: rest =>
    match Decimal.natural? 16 [high, low] with
    | some n => n.toUInt8 :: octets rest
    | none => '%'.toUInt8 :: octets (high :: low :: rest)
  | c :: rest => (String.singleton c).toUTF8.toList ++ octets rest

/-- The text that a part of a path stands for, if its octets are UTF-8. -/
def decode? (part : List Char) : Option String := String.fromUTF8? ⟨(octets part).toArray⟩

end Spreadsheet.Http.Target
