import Anticheat.Lib.JsonReader

/-!
# URLs

How a common library takes a URL apart: scheme, host, path, parameters, query and fragment. Only
the path and the query are kept.
-/

namespace Url

open Json (Text)

def isAlpha (c : ℕ) : Bool := (65 ≤ c && c ≤ 90) || (97 ≤ c && c ≤ 122)

/-- The characters of a scheme: letters, digits, `+`, `-` and `.`. -/
def isSchemeChar (c : ℕ) : Bool := isAlpha c || Json.isDigit c || c = 43 || c = 45 || c = 46

def lower (c : ℕ) : ℕ := if 65 ≤ c && c ≤ 90 then c + 32 else c

/-- Control characters and spaces go from the front, tabs and line ends from everywhere. -/
def strip (url : Text) : Text :=
  (url.dropWhile (· ≤ 32)).filter fun c => c ≠ 9 && c ≠ 10 && c ≠ 13

/-- What stands before the first `:` is the scheme if it can be one. -/
def splitScheme (url : Text) : Text × Text :=
  let front := url.takeWhile (· ≠ 58)
  if front.length < url.length && (front.head?).any isAlpha && front.all isSchemeChar then
    (front.map lower, url.drop (front.length + 1))
  else ([], url)

/-- What follows `//`, up to a `/`, `?` or `#`, is the host. -/
def splitHost (url : Text) : Text × Text :=
  match url with
  | 47 :: 47 :: rest =>
    let inHost := fun c => c ≠ 47 && c ≠ 63 && c ≠ 35
    (rest.takeWhile inHost, rest.dropWhile inHost)
  | _ => ([], url)

/-- Both brackets or none. -/
def bracketsOk (host : Text) : Bool := host.contains 91 == host.contains 93

/-- The schemes whose URLs have parameters. -/
def usesParams : List String :=
  ["", "ftp", "hdl", "prospero", "http", "imap", "https", "shttp", "rtsp", "rtsps", "rtspu", "sip",
    "sips", "mms", "sftp", "tel"]

/-- The last segment of a path ends at its first `;`. -/
def cutParams (path : Text) : Text :=
  let segment := (path.reverse.takeWhile (· ≠ 47)).reverse
  path.take (path.length - segment.length) ++ segment.takeWhile (· ≠ 59)

/-- The path and the query of a URL; `none` is an error about its host. `hostOk` is what the library
says about a host that is in brackets or not in ASCII. -/
def parse (hostOk : Text → Bool) (url : Text) : Option (Text × Text) :=
  let (scheme, rest) := splitScheme (strip url)
  let (host, rest) := splitHost rest
  if !bracketsOk host then none
  else if (host.contains 91 || host.any (128 ≤ ·)) && !hostOk host then none
  else
    let rest := rest.takeWhile (· ≠ 35)
    let path := rest.takeWhile (· ≠ 63)
    let query := (rest.dropWhile (· ≠ 63)).tail
    if usesParams.any fun s => s.toList.map Char.toNat = scheme then some (cutParams path, query)
    else some (path, query)

end Url
