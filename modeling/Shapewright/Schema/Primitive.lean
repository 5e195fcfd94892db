/-!
# Primitive kinds

The kinds of values that have no structure of their own, and the formats a string may be declared to
have.

Kinds are compared by name in designs and by type in code. The integers without a width are kinds of
their own, which an encoding may turn into others. Bytes and the kind `any` are primitives that can
be nil, so they are never behind a pointer, and a missing value shows without one.
-/

namespace Shapewright

inductive Primitive where
  | boolean
  | int
  | int32
  | int64
  | uint
  | uint32
  | uint64
  | float32
  | float64
  | string
  | bytes
  | any
deriving Repr, DecidableEq, Inhabited

namespace Primitive

/-- All kinds, in the order in which they are listed. -/
def all : List Primitive :=
  [.boolean, .int, .int32, .int64, .uint, .uint32, .uint64, .float32, .float64, .string, .bytes,
   .any]

/-- The name of a kind in designs and messages. Designs are written and read by these names, which
    are not always those of the native types. -/
def name : Primitive → String
  | .boolean => "boolean"
  | .int => "int"
  | .int32 => "int32"
  | .int64 => "int64"
  | .uint => "uint"
  | .uint32 => "uint32"
  | .uint64 => "uint64"
  | .float32 => "float32"
  | .float64 => "float64"
  | .string => "string"
  | .bytes => "bytes"
  | .any => "any"

/-- The kind with a name. -/
def ofName? (s : String) : Option Primitive := all.find? (·.name == s)

/-- Whether the values of a kind are integers. -/
def isInteger : Primitive → Bool
  | .int | .int32 | .int64 | .uint | .uint32 | .uint64 => true
  | _ => false

/-- Whether the values of a kind are integers from zero on. -/
def isUnsigned : Primitive → Bool
  | .uint | .uint32 | .uint64 => true
  | _ => false

/-- Whether the values of a kind are floating-point numbers. -/
def isFloat : Primitive → Bool
  | .float32 | .float64 => true
  | _ => false

/-- Kinds whose values can be nil by themselves, and so are never held behind a pointer. -/
def isReference : Primitive → Bool
  | .bytes | .any => true
  | _ => false

end Primitive

/-- The declared format of a string. -/
inductive Format where
  | date
  | dateTime
  | uuid
  | email
  | hostname
  | ipv4
  | ipv6
  | ip
  | uri
  | mac
  | cidr
  | regexp
  | json
  | rfc1123
deriving Repr, DecidableEq

namespace Format

/-- All formats, in the order in which they are listed. -/
def all : List Format :=
  [.date, .dateTime, .uuid, .email, .hostname, .ipv4, .ipv6, .ip, .uri, .mac, .cidr, .regexp, .json,
    .rfc1123]

/-- The name of a format in designs. Designs are written and read by these names. -/
def name : Format → String
  | .date => "date"
  | .dateTime => "date-time"
  | .uuid => "uuid"
  | .email => "email"
  | .hostname => "hostname"
  | .ipv4 => "ipv4"
  | .ipv6 => "ipv6"
  | .ip => "ip"
  | .uri => "uri"
  | .mac => "mac"
  | .cidr => "cidr"
  | .regexp => "regexp"
  | .json => "json"
  | .rfc1123 => "rfc1123"

/-- The end of the name of the format's constant in generated code. Acronyms are in capitals, as in
    identifiers. -/
def ident : Format → String
  | .date => "Date"
  | .dateTime => "DateTime"
  | .uuid => "UUID"
  | .email => "Email"
  | .hostname => "Hostname"
  | .ipv4 => "IPv4"
  | .ipv6 => "IPv6"
  | .ip => "IP"
  | .uri => "URI"
  | .mac => "MAC"
  | .cidr => "CIDR"
  | .regexp => "Regexp"
  | .json => "JSON"
  | .rfc1123 => "RFC1123"

end Format
end Shapewright
