/-!
# The protected host

Bearer tokens go to one host and its subdomains. A subdomain has at least one character and a dot in
front of the name of the host. Letters of the ASCII range match in either case, and dots at the end
of the requested host do not count. Lengths are those of the texts in UTF-8, and a host that cannot
be cut where the name would start, because a character goes on there, is no subdomain.
-/
namespace TokenKeeper.Host

def trimDots (cs : List Char) : List Char :=
  (cs.reverse.dropWhile (· == '.')).reverse

def sameLetters (a b : List Char) : Bool :=
  a.map Char.toLower == b.map Char.toLower

def byteLength : List Char → Nat
  | [] => 0
  | c :: cs => c.utf8Size + byteLength cs

/-- The parts of a text before and after so many bytes, unless that is inside a character or past
the end. -/
def cutAt? : Nat → List Char → Option (List Char × List Char)
  | 0, cs => some ([], cs)
  | _ + 1, [] => none
  | n + 1, c :: cs =>
    if c.utf8Size ≤ n + 1 then
      (cutAt? (n + 1 - c.utf8Size) cs).map fun (front, rest) => (c :: front, rest)
    else none

def isSubdomain (host name : List Char) : Bool :=
  if byteLength host < byteLength name then false
  else
    match cutAt? (byteLength host - byteLength name) host with
    | some (labels, rest) =>
      1 < byteLength labels && labels.getLast? == some '.' && sameLetters rest name
    | none => false

def matchesHost (host apiHost : String) : Bool :=
  let host := trimDots host.toList
  sameLetters host apiHost.toList || isSubdomain host apiHost.toList

end TokenKeeper.Host
