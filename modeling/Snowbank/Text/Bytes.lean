/-!
# Text From Bytes

Bytes as UTF-8 text, where bytes that are not part of any character are shown
as the replacement character, one for each longest start of a character that
is broken off.
-/

namespace Snowbank.Text

/-- The character shown for bytes that are none. -/
def replacement : Char := '�'

/-- A byte that continues a character. -/
def isContinuation (b : Nat) : Bool := 0x80 ≤ b && b ≤ 0xBF

/-- A byte that may follow the first byte of a character of three or four bytes. Shorter forms,
    surrogates and numbers that are too large are excluded by it. -/
def isSecond (first b : Nat) : Bool :=
  if first == 0xE0 then 0xA0 ≤ b && b ≤ 0xBF
  else if first == 0xED then 0x80 ≤ b && b ≤ 0x9F
  else if first == 0xF0 then 0x90 ≤ b && b ≤ 0xBF
  else if first == 0xF4 then 0x80 ≤ b && b ≤ 0x8F
  else isContinuation b

/-- The character of two bytes. -/
def char2 (a b : Nat) : Char := Char.ofNat ((a - 0xC0) * 0x40 + (b - 0x80))

/-- The character of three bytes. -/
def char3 (a b c : Nat) : Char :=
  Char.ofNat (((a - 0xE0) * 0x40 + (b - 0x80)) * 0x40 + (c - 0x80))

/-- The character of four bytes. -/
def char4 (a b c d : Nat) : Char :=
  Char.ofNat ((((a - 0xF0) * 0x40 + (b - 0x80)) * 0x40 + (c - 0x80)) * 0x40 + (d - 0x80))

def charsOfBytes : List Nat → List Char
  | [] => []
  | a :: rest =>
    if a < 0x80 then Char.ofNat a :: charsOfBytes rest
    else if 0xC2 ≤ a && a ≤ 0xDF then
      match rest with
      | b :: rest' =>
        if isContinuation b then char2 a b :: charsOfBytes rest'
        else replacement :: charsOfBytes (b :: rest')
      | [] => [replacement]
    else if 0xE0 ≤ a && a ≤ 0xEF then
      match rest with
      | b :: rest' =>
        if isSecond a b then
          match rest' with
          | c :: rest'' =>
            if isContinuation c then char3 a b c :: charsOfBytes rest''
            else replacement :: charsOfBytes (c :: rest'')
          | [] => [replacement]
        else replacement :: charsOfBytes (b :: rest')
      | [] => [replacement]
    else if 0xF0 ≤ a && a ≤ 0xF4 then
      match rest with
      | b :: rest' =>
        if isSecond a b then
          match rest' with
          | c :: rest'' =>
            if isContinuation c then
              match rest'' with
              | d :: rest''' =>
                if isContinuation d then char4 a b c d :: charsOfBytes rest'''
                else replacement :: charsOfBytes (d :: rest''')
              | [] => [replacement]
            else replacement :: charsOfBytes (c :: rest'')
          | [] => [replacement]
        else replacement :: charsOfBytes (b :: rest')
      | [] => [replacement]
    else replacement :: charsOfBytes rest

def ofBytes (bytes : List Nat) : String := String.ofList (charsOfBytes bytes)

end Snowbank.Text
