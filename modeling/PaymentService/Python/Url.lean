import PaymentService.Python.Text

/-!
# `urllib.parse.urlparse`

The scheme and the network location `urlparse` finds in a string. It raises `ValueError` where
brackets do not match or do not enclose an IPv6 or `v`-future address, and where a character of
the network location normalises (NFKC) to a delimiter.
-/

namespace Python

/-- The two parts of a parsed URL that the service reads. -/
structure Url where
  scheme : String
  netloc : String
deriving DecidableEq, Repr

namespace Url

def isC0OrSpace (c : Char) : Bool := c.toNat ≤ 32

def isUnsafe (c : Char) : Bool := c = '\t' || c = '\r' || c = '\n'

def isSchemeChar (c : Char) : Bool := c.isAlphanum || c = '+' || c = '-' || c = '.'

def isNetlocEnd (c : Char) : Bool := c = '/' || c = '?' || c = '#'

/-- What follows the last `c`, or everything where there is none. -/
def afterLast (c : Char) (cs : List Char) : List Char :=
  (cs.reverse.takeWhile (· ≠ c)).reverse

def before (c : Char) (cs : List Char) : List Char := cs.takeWhile (· ≠ c)

/-- What follows the first `c`, if there is one. -/
def afterFirst? (c : Char) (cs : List Char) : Option (List Char) :=
  match cs.dropWhile (· ≠ c) with
  | [] => none
  | _ :: rest => some rest

def splitOn (c : Char) : List Char → List (List Char)
  | [] => [[]]
  | d :: ds =>
    match splitOn c ds with
    | [] => [[d]]
    | part :: parts => if d = c then [] :: part :: parts else (d :: part) :: parts

/-! ## Bracketed hosts -/

def isHextet (cs : List Char) : Bool :=
  cs ≠ [] && cs.length ≤ 4 && cs.all fun c => (Numeral.digitVal c).isSome

def isOctet (cs : List Char) : Bool :=
  cs ≠ [] && cs.length ≤ 3 && cs.all Numeral.isDecimalDigit
    && !(1 < cs.length && cs.head? = some '0') && Numeral.ofChars cs ≤ 255

def isIPv4 (cs : List Char) : Bool :=
  let octets := splitOn '.' cs
  octets.length = 4 && octets.all isOctet

/-- The places of an address where `::` stands between two colons. -/
def skips (parts : List (List Char)) : ℕ :=
  ((parts.drop 1).dropLast.filter fun part => decide (part = [])).length

/-- The hextets around a `::`; at an end of the address the part beyond it has to be empty too. -/
def skipOk (hi lo : List (List Char)) : Bool :=
  let hi' := if hi.head? = some [] then hi.drop 1 else hi
  let lo' := if lo.getLast? = some [] then lo.dropLast else lo
  !(hi.head? = some [] && hi' ≠ []) && !(lo.getLast? = some [] && lo' ≠ [])
    && hi'.length + lo'.length < 8 && hi'.all isHextet && lo'.all isHextet

def isIPv6 (cs : List Char) : Bool :=
  let addr := before '%' cs
  let scopeOk := match afterFirst? '%' cs with
    | none => true
    | some scope => scope ≠ [] && !scope.contains '%'
  let raw := splitOn ':' addr
  let last := raw.getLast?.getD []
  let v4 := last.contains '.'
  -- A dotted ending stands for two hextets.
  let parts := if v4 then raw.dropLast ++ [['0'], ['0']] else raw
  scopeOk && 3 ≤ raw.length && (!v4 || isIPv4 last) && parts.length ≤ 9 && skips parts ≤ 1
    && if skips parts = 1 then
        let hi := parts.head?.toList ++ (parts.drop 1).takeWhile (· ≠ [])
        skipOk hi (parts.drop (hi.length + 1))
      else parts.length = 8 && parts.all isHextet

def isIPvFuture (cs : List Char) : Bool :=
  match cs with
  | 'v' :: rest =>
    let version := rest.takeWhile fun c => (Numeral.digitVal c).isSome
    match rest.drop version.length with
    | '.' :: address => version ≠ [] && address ≠ []
    | _ => false
  | _ => false

def bracketsOk (netloc : List Char) : Bool :=
  let hostPort := afterLast '@' netloc
  let host :=
    match afterFirst? '[' hostPort with
    | some bracketed => before ']' bracketed
    | none => before ':' hostPort
  let port := (afterFirst? '[' hostPort).bind (afterFirst? ']')
  -- Nothing may stand before the bracket, and only a port after it.
  let around := match afterFirst? '[' hostPort with
    | some _ => before '[' hostPort = []
        && (port.getD [] = [] || (port.getD []).head? = some ':')
    | none => true
  around && if host.head? = some 'v' then isIPvFuture host else isIPv6 host && !isIPv4 host

/-- The characters beyond ASCII whose compatibility form holds one of `/?#@:`. -/
def delimiterLike : List ℕ :=
  [0x2047, 0x2048, 0x2049, 0x2100, 0x2101, 0x2105, 0x2106, 0x2A74, 0xFE13, 0xFE16, 0xFE55,
    0xFE56, 0xFE5F, 0xFE6B, 0xFF03, 0xFF0F, 0xFF1A, 0xFF1F, 0xFF20]

/-! ## The parser -/

def clean (text : String) : List Char :=
  (text.toList.dropWhile isC0OrSpace).filter fun c => !isUnsafe c

/-- The scheme, lower-cased, and what follows it. -/
def splitScheme (cs : List Char) : List Char × List Char :=
  let scheme := before ':' cs
  match afterFirst? ':' cs, scheme.head? with
  | some rest, some c =>
    if c.isAlpha && scheme.all isSchemeChar then (scheme.map Char.toLower, rest) else ([], cs)
  | _, _ => ([], cs)

def netlocOf : List Char → List Char
  | '/' :: '/' :: cs => cs.takeWhile fun c => !isNetlocEnd c
  | _ => []

/-- `urlparse(text)`, with the text of its `ValueError`. -/
def urlparse (text : String) : Except String Url :=
  let split := splitScheme (clean text)
  let netloc := netlocOf split.2
  if netloc.contains '[' != netloc.contains ']' then .error "Invalid IPv6 URL"
  else if netloc.contains '[' && !bracketsOk netloc then .error "Invalid IPv6 URL"
  else if netloc.any fun c => delimiterLike.contains c.toNat then
    .error ("netloc '" ++ String.ofList netloc
      ++ "' contains invalid characters under NFKC normalization")
  else .ok ⟨String.ofList split.1, String.ofList netloc⟩

example : urlparse "HTTPS://user@example.com:80/hook?a#b"
    = .ok ⟨"https", "user@example.com:80"⟩ := by decide
example : urlparse "http://[::1]:80/" = .ok ⟨"http", "[::1]:80"⟩ := by decide
example : urlparse "http://[1::2::3]/" = .error "Invalid IPv6 URL" := by decide

end Url

end Python
