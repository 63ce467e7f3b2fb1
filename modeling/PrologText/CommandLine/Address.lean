import PrologText.Number.Positional

/-!
# Addresses to listen on

An address is a host and a port with a colon between them; a host with colons of its own is put in
brackets. `Address.fault?` says why it is impossible to listen on an address.
-/

namespace PrologText.Address

/-- What is wrong with an address or a part of it. -/
def wrong (part : Text) (why : String) : Text :=
  "listen tcp: address " ++ part ++ ": " ++ (why : Text)

/-- Whether a text has a given glyph. -/
def has (t : Text) (c : Char) : Bool :=
  t.contains (.char c)

/-- The parts of an address before and after its last colon. -/
def splitLast? (address : Text) : Option (Text × Text) :=
  if has address ':' then
    let port := (address.reverse.takeWhile (· ≠ .char ':')).reverse
    some (address.take (address.length - port.length - 1), port)
  else none

/-- The port of an address, or what is wrong with the address. -/
def port (address : Text) : Except Text Text :=
  match splitLast? address with
  | none => .error (wrong address "missing port in address")
  | some (host, port) =>
    let rest (inHost afterHost : Text) : Except Text Text :=
      if has inHost '[' then .error (wrong address "unexpected '[' in address")
      else if has afterHost ']' then .error (wrong address "unexpected ']' in address")
      else .ok port
    if address.head? = some (.char '[') then
      let inside := address.takeWhile (· ≠ .char ']')
      if inside.length = address.length then .error (wrong address "missing ']' in address")
      else
        let after := address.drop (inside.length + 1)
        if inside.length + 1 = host.length then rest (address.drop 1) after
        else if after.head? = some (.char ':') then
          .error (wrong address "too many colons in address")
        else .error (wrong address "missing port in address")
    else if has host ':' then .error (wrong address "too many colons in address")
    else rest address address

/-- The services that are known by name. -/
def services : List String :=
  ["domain", "ftp", "ftps", "gopher", "http", "https", "imap2", "imap3", "imaps", "pop3", "pop3s",
    "smtp", "submissions", "ssh", "telnet"]

/-- A port as a number: digits after an optional sign. -/
def portNumber? (t : Text) : Option Int :=
  let (sign, digits) : Int × Text :=
    match t with
    | .char '-' :: t => (-1, t)
    | .char '+' :: t => (1, t)
    | t => (1, t)
  (digits.mapM fun g => Positional.digitValue? 10 g.code).map fun ds =>
    sign * (Positional.value 10 ds : Nat)

/-- Why it is impossible to listen on an address, if it is. -/
def fault? (address : Text) : Option Text :=
  match port address with
  | .error e => some e
  | .ok p =>
    match portNumber? p with
    | some n => if n < 0 ∨ 65535 < n then some (wrong p "invalid port") else none
    | none =>
      let known := services.any fun s => Text.ofString s = p.map fun g => .char g.code.toLower
      if known then none else some ("listen tcp: lookup tcp/" ++ p ++ ": unknown port")

end PrologText.Address
