import TokenKeeper.Text.Digit

/-!
# The host of a URL

A URL of the web names its host after the scheme, any slashes, and any user with its password; a
port may follow. The host is given in small letters and without escapes. Other URLs have a host only
after two slashes.
-/
namespace TokenKeeper.Url

/-- The schemes of the web, in which a backslash is as good as a slash. -/
def webSchemes : List String := ["http", "https", "ws", "wss", "ftp"]

def scheme? (url : List Char) : Option (String × List Char) :=
  match url.dropWhile (· != ':') with
  | _ :: rest => some (String.ofList ((url.takeWhile (· != ':')).map Char.toLower), rest)
  | [] => none

def authority (web : Bool) (cs : List Char) : List Char :=
  cs.takeWhile fun c => c != '/' && c != '?' && c != '#' && !(web && c == '\\')

def afterUser (cs : List Char) : List Char :=
  (cs.reverse.takeWhile (· != '@')).reverse

def beforePort (cs : List Char) : List Char :=
  match cs with
  | '[' :: rest => '[' :: rest.takeWhile (· != ']') ++ [']']
  | cs => cs.takeWhile (· != ':')

def unescape : List Char → List Char
  | '%' :: high :: low :: rest =>
    match Text.hexadecimal? [high, low] with
    | some n =>
      if n < 128 then Char.ofNat n :: unescape rest else '%' :: high :: low :: unescape rest
    | none => '%' :: unescape (high :: low :: rest)
  | c :: rest => c :: unescape rest
  | [] => []

def host? (url : String) : Option String := do
  let (scheme, rest) ← scheme? url.toList
  let web := webSchemes.contains scheme
  let rest ←
    if web then some (rest.dropWhile fun c => c == '/' || c == '\\')
    else
      match rest with
      | '/' :: '/' :: rest => some rest
      | _ => none
  let host := beforePort (afterUser (authority web rest))
  let host := if web then (unescape host).map Char.toLower else host
  if host.isEmpty then none else some (String.ofList host)

end TokenKeeper.Url
