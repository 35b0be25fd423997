import ContentCard.Web.Percent
import ContentCard.Web.Punycode

/-!
Domain names in their ASCII form.

Letters become lower case, wide forms of ASCII become ASCII, and a label that still has other
characters is written in Punycode behind `xn--`.  A label that comes in that form has to decode to
one that would be written so.  Case is folded for the Latin, Greek, Cyrillic and Armenian scripts.
-/

namespace ContentCard.Web.Domain

def within (n lo hi : Nat) : Bool := lo ≤ n && n ≤ hi

/-- Upper case stands on the even code points of these ranges. -/
def evenPairs : List (Nat × Nat) :=
  [(0x100, 0x12f), (0x132, 0x137), (0x14a, 0x177), (0x1f8, 0x21f), (0x222, 0x233), (0x246, 0x24f),
    (0x3d8, 0x3ef), (0x460, 0x481), (0x48a, 0x4bf), (0x4d0, 0x52f), (0x1e00, 0x1e95),
    (0x1ea0, 0x1eff)]

/-- Upper case stands on the odd code points of these ranges. -/
def oddPairs : List (Nat × Nat) := [(0x139, 0x148), (0x179, 0x17e), (0x1cd, 0x1dc), (0x4c1, 0x4ce)]

/-- Upper case stands this far before lower case. -/
def shifts : List (Nat × Nat × Nat) :=
  [(0x41, 0x5a, 0x20), (0xc0, 0xd6, 0x20), (0xd8, 0xde, 0x20), (0x388, 0x38a, 0x25),
    (0x391, 0x3a1, 0x20), (0x3a3, 0x3ab, 0x20), (0x400, 0x40f, 0x50), (0x410, 0x42f, 0x20),
    (0x531, 0x556, 0x30)]

/-- Characters with a form of their own. -/
def single : List (Nat × List Nat) :=
  [(0x130, [0x69, 0x307]), (0x178, [0xff]), (0x17f, [0x73]), (0x386, [0x3ac]), (0x38c, [0x3cc]),
    (0x38e, [0x3cd]), (0x38f, [0x3ce]), (0x4c0, [0x4cf]), (0x1e9e, [0x73, 0x73]), (0xaa, [0x61]),
    (0xb2, [0x32]), (0xb3, [0x33]), (0xb5, [0x3bc]), (0xb9, [0x31]), (0xba, [0x6f]),
    (0x3002, [0x2e]), (0xff61, [0x2e]), (0x2126, [0x3c9]), (0x212a, [0x6b]), (0x212b, [0xe5])]

/-- Characters that leave no trace in a name. -/
def isIgnored (n : Nat) : Bool :=
  n == 0xad || n == 0x200b || n == 0x2060 || n == 0x2064 || n == 0xfeff || within n 0xfe00 0xfe0f

/-- Controls, spaces, private characters and code points without a character. -/
def isRefused (n : Nat) : Bool :=
  within n 0x80 0xa0 || n == 0xa8 || n == 0xaf || n == 0xb4 || n == 0xb8 || n == 0x1680 ||
    within n 0x2000 0x200a || within n 0x200c 0x200f || within n 0x2028 0x202f ||
    within n 0x205f 0x2063 || within n 0x2065 0x206f || n == 0x3000 || within n 0xe000 0xf8ff ||
    within n 0xfdd0 0xfdef || within n 0xfff0 0xffff || within n 0xe0000 0x10ffff ||
    n % 0x10000 == 0xfffe || n % 0x10000 == 0xffff

/-- The folded form of a character, or `none` for one that no name may have. -/
def fold? (c : Char) : Option (List Char) :=
  let n := c.toNat
  if isIgnored n then some []
  else if isRefused n then none
  else
    match single.lookup n with
    | some form => some (form.map Char.ofNat)
    | none =>
      if within n 0xff01 0xff5e then some [(Char.ofNat (n - 0xfee0)).toLower]
      else if evenPairs.any (fun r => within n r.1 r.2) && n % 2 == 0 then some [Char.ofNat (n + 1)]
      else if oddPairs.any (fun r => within n r.1 r.2) && n % 2 == 1 then some [Char.ofNat (n + 1)]
      else
        match shifts.find? fun r => within n r.1 r.2.1 with
        | some r => some [Char.ofNat (n + r.2.2)]
        | none => some [c]

def isAscii (c : Char) : Bool := c.toNat < 128

/-- ASCII characters with a meaning elsewhere in an address. -/
def forbidden (c : Char) : Bool :=
  c.toNat ≤ 0x20 || c.toNat == 0x7f || "%#/:<>?@[\\]^|".toList.contains c

def labels (name : List Char) : List (List Char) := name.splitOn '.'

def ascii? (label : List Char) : Option (List Char) :=
  match label with
  | 'x' :: 'n' :: '-' :: '-' :: code =>
    match Punycode.decode code with
    | some decoded =>
      if decoded.any (fun c => !isAscii c) && decoded.all (fun c => fold? c == some [c]) then
        some label
      else none
    | none => none
  | label =>
    if label.all isAscii then some label
    else some ("xn--".toList ++ Punycode.encode label)

def join (parts : List (List Char)) : List Char := ['.'].intercalate parts

/-- The ASCII form of a name given as bytes, which may be `%` escapes undone. -/
def ofBytes? (bytes : List UInt8) : Option (List Char) := do
  let text ← String.fromUTF8? ⟨bytes.toArray⟩
  let folded ← text.toList.mapM fold?
  let parts ← (labels folded.flatten).mapM ascii?
  let name := join parts
  if name.any forbidden then none else some name

end ContentCard.Web.Domain
