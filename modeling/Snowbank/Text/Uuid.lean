/-!
# Document Ids

Documents are told apart by random UUIDs (version 4), written as lower-case
hexadecimal digits in five groups.
-/

namespace Snowbank.Uuid

/-- A number as hexadecimal digits, of a fixed width. -/
def hex (width n : Nat) : String :=
  String.ofList ((List.range width).reverse.map fun i => Nat.digitChar (n / Nat.pow 16 i % 16))

/-- The text of a UUID of version 4 whose free bits are the low 122 bits of a number. -/
def ofBits (n : Nat) : String :=
  let node := n % 0x1000000000000
  let clock := 0x8000 + n / 0x1000000000000 % 0x4000
  let high := 4 * 0x1000 + n / 0x4000000000000000 % 0x1000
  let mid := n / 0x4000000000000000000 % 0x10000
  let low := n / 0x40000000000000000000000 % 0x100000000
  "-".intercalate [hex 8 low, hex 4 mid, hex 4 high, hex 4 clock, hex 12 node]

/-- A hexadecimal digit. -/
def isHex (c : Char) : Bool :=
  c.isDigit || ('a' ≤ c && c ≤ 'f') || ('A' ≤ c && c ≤ 'F')

/-- The digits between the marks that may stand around a UUID. -/
def inner (cs : List Char) : List Char :=
  match cs with
  | '\x7b' :: rest =>
    if rest.getLast? == some '\x7d' && rest.length == 37 then rest.dropLast else cs
  | _ =>
    if "urn:uuid:".toList.isPrefixOf cs && cs.length == 45 then cs.drop 9 else cs

/-- The digits of a UUID, in groups or all in one. -/
def digits? (text : String) : Option (List Char) :=
  let cs := inner text.toList
  if cs.length == 36 then
    let dashes := [8, 13, 18, 23]
    let isDash (i : Nat) : Bool := dashes.contains i
    if cs.zipIdx.all fun (c, i) => if isDash i then c == '-' else isHex c then
      some (cs.filter isHex)
    else none
  else if cs.length == 32 && cs.all isHex then some cs
  else none

/-- The text is a UUID of version 4. -/
def isRandom (text : String) : Bool :=
  match digits? text with
  | some cs => cs[12]? == some '4'
  | none => false

end Snowbank.Uuid
