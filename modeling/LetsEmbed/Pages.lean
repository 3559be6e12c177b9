import LetsEmbed.Systems.Percent
import LetsEmbed.Text

/-! The scripts of the user worker's pages, as far as they build URLs and spell the
signatures of a wallet. -/

namespace LetsEmbed.Pages
open Text Systems

def isRefused (next : String) : Bool :=
  !startsWith next "/" || startsWith next "//" || next.toList.contains '\\'

/-- Where `login.html` sends the browser after signing in: the query parameter
`next`, unless it is missing, empty or refused. -/
def nextUrl (next : Option String) : String :=
  let next := if next.getD "" = "" then "/" else next.getD ""
  if isRefused next then "/" else next

def isUriMark (c : Char) : Bool := c.isAlphanum || "-_.!~*'()".toList.contains c

def encodeURIComponent (s : String) : String := String.ofList (Percent.encode isUriMark s.toList)

/-- The picture that `favorites.html` shows of a liked post or image. -/
def previewSrc (name : String) : String := "/images/" ++ encodeURIComponent name ++ ".webp"

def alph : List Char := "123456789ABCDEFGHJKLMNPQRSTUVWXYZabcdefghijkmnopqrstuvwxyz".toList

/-- The digits in base 58 are taken times 256, from the least, with what is carried
into them and what is left to carry. Digits and carry are below 58 and 256, far from
where `<<` and `| 0` would wrap. -/
def carryThrough (carry : Nat) : List Nat → List Nat × Nat
  | [] => ([], carry)
  | digit :: rest =>
    let carry := carry + digit <<< 8
    let (rest, out) := carryThrough (carry / 58) rest
    (carry % 58 :: rest, out)

def pushCarry (carry : Nat) : List Nat := if 0 < carry then carry % 58 :: pushCarry (carry / 58) else []

def encodeByte (digits : List Nat) (byte : UInt8) : List Nat :=
  let (digits, carry) := carryThrough byte.toNat digits
  digits ++ pushCarry carry

/-- In `account.html` as in `login.html`. The loop over leading zeros stops one byte
short of the end. -/
def bs58encode (bytes : List UInt8) : String :=
  if bytes.length = 0 then ""
  else
    let digits := bytes.foldl encodeByte [0]
    let zeros := ((bytes.take (bytes.length - 1)).takeWhile (· == 0)).length
    String.ofList (List.replicate zeros '1' ++ digits.reverse.map fun digit => alph.getD digit default)

end LetsEmbed.Pages
