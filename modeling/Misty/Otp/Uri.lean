import Misty.Otp.Base32
import Misty.Otp.Generate
import Misty.Otp.Percent

/- The `otpauth://` URI of `misty-otp`: how one is taken apart and read, and the canonical
   one that is written.

   Correspondence (Rust ↔ Lean):
     `KNOWN_PARAMS`, the arms over them        ↔ `Param`, `Param.of`
     `Query`, `Query::parse`, `set_once`       ↔ `UriQuery`, its slots `known`; `UriQuery.parse`, `UriQuery.setOnce`
     `strip_scheme`, the splits after it       ↔ `stripScheme`, `splitUri`
     `decode_field`, `encode_field`, `parse_u64` ↔ the same names
     `OtpUri::parse_with_warnings`             ↔ `OtpUri.parseWithWarnings`, `UriQuery.stated`, `overridden`, `readConfig`, `mergeIssuer`
     `OtpUri::{new, to_uri, export_form}`       ↔ the same names
   A slot of the query is found by its parameter. -/
namespace Misty

def MAX_URI_LEN : Nat := 4096

/-- A parameter that is understood. -/
inductive Param where
  | secret
  | issuer
  | algorithm
  | digits
  | period
  | counter
  | pin
  deriving DecidableEq

namespace Param

def name : Param → String
  | secret => "secret"
  | issuer => "issuer"
  | algorithm => "algorithm"
  | digits => "digits"
  | period => "period"
  | counter => "counter"
  | pin => "pin"

/-- `KNOWN_PARAMS`. -/
def all : List Param := [secret, issuer, algorithm, digits, period, counter, pin]

/-- The parameter a name is that of, in either case. -/
def of (name : Text) : Option Param := all.find? (fun param => param.name.toList = name.map toAsciiLowercase)

theorem of_name : ∀ param : Param, of param.name.toList = some param
  | secret => by rfl
  | issuer => by rfl
  | algorithm => by rfl
  | digits => by rfl
  | period => by rfl
  | counter => by rfl
  | pin => by rfl

end Param

inductive UriWarning where
  | issuerMismatch (label parameter : Text)
  | ignoredParam (name : String)
  | fragmentIgnored
  deriving DecidableEq

structure OtpUri where
  config : OtpConfig
  issuer : Option Text
  account : Text
  extra : List (Text × Text)
  deriving DecidableEq

/-! ## Fields -/

def SecretBytes.fromHex (encoded : Text) : Except OtpError SecretBytes :=
  if MAX_SECRET_LEN * 2 < encoded.utf8Len then .error (.secretTooLong (encoded.utf8Len / 2) MAX_SECRET_LEN)
  else match hexDecode encoded with
    | none => .error .invalidHexSecret
    | some bytes => (SecretBytes.checkLen ⟨bytes⟩).map (fun _ => ⟨bytes⟩)

def decodeField (encoding : SecretEncoding) (value : Text) : Except OtpError SecretBytes :=
  match encoding with
  | .base32 => ((Base32.decode value).mapError .base32).map (fun bytes => ⟨bytes⟩)
  | .hex => SecretBytes.fromHex value
  | .text => .ok ⟨value.utf8⟩

def encodeField (encoding : SecretEncoding) (bytes : Bytes) : Text :=
  match encoding with
  | .base32 => Base32.encode bytes
  | .hex => hexEncode bytes
  | .text => Percent.encodeBytes bytes

def parseU64 (value : Text) (name : String) : Except OtpError U64 :=
  match parseDecimal value with
  | some n => .ok n
  | none => .error (.uri (.invalidParam name))

/-! ## The query -/

structure UriQuery where
  known : Param → Option Text
  extra : List (Text × Text)

namespace UriQuery

/-- `UriQuery::default`. -/
def empty : UriQuery := { known := fun _ => none, extra := [] }

def setOnce (parsed : UriQuery) (param : Param) (value : Text) : Except UriError UriQuery :=
  if (parsed.known param).isSome then .error (.duplicateParam param.name)
  else .ok { parsed with known := Function.update parsed.known param (some value) }

/-- A decoded parameter, put where it belongs. -/
def add (parsed : UriQuery) (name value : Text) : Except UriError UriQuery :=
  match Param.of name with
  | some param => parsed.setOnce param value
  | none => .ok { parsed with extra := parsed.extra ++ [(name, value)] }

/-- The body of the loop of `parse`. -/
def step (parsed : UriQuery) (pair : Text) : Except UriError UriQuery :=
  if pair = [] then .ok parsed
  else do
    let (rawName, rawValue) := (splitOnce ['='] pair).getD (pair, [])
    if rawName = [] then throw .malformedQuery
    let name ← Percent.decode rawName
    let value ← Percent.decode rawValue
    parsed.add name value

def parse (query : Text) : Except UriError UriQuery := (splitAll '&' query).foldlM step empty

/-- What a parameter reads as, if it is there. -/
def read {α : Type} (query : UriQuery) (param : Param) (f : Text → Except OtpError α) : Except OtpError (Option α) :=
  match query.known param with
  | some raw => (f raw).map some
  | none => .ok none

end UriQuery

/-! ## Taking a URI apart -/

def stripScheme (input : Text) : Except UriError Text :=
  match splitOnce "://".toList input with
  | none => .error .notOtpauth
  | some (scheme, rest) =>
    if eqIgnoreAsciiCase scheme "otpauth-migration".toList then .error .migrationUri
    else if ¬ eqIgnoreAsciiCase scheme "otpauth".toList then .error .notOtpauth
    else .ok rest

/-- The pieces of a URI, before anything is decoded. -/
structure UriParts where
  fragment : Bool
  kind : OtpKind
  labelIssuer : Option Text
  account : Text
  query : Text

/-- The splits at `#`, `?`, `/` and `:`. -/
def splitUri (input : Text) : Except UriError UriParts := do
  let rest ← stripScheme input
  let (rest, fragment) := match splitOnce ['#'] rest with
    | some (head, _) => (head, true)
    | none => (rest, false)
  let (path, rawQuery) := (splitOnce ['?'] rest).getD (rest, [])
  let (authority, label) := (splitOnce ['/'] path).getD (path, [])
  match OtpKind.fromUriType authority with
  | none => throw .unknownKind
  | some kind =>
    let (labelIssuer, account) := match splitOnce [':'] label with
      | some (issuer, account) => (some issuer, account)
      | none => (none, label)
    return { fragment := fragment, kind := kind, labelIssuer := labelIssuer, account := account, query := rawQuery }

/-- The issuer of the label, if it has one. -/
def decodeIssuer (labelIssuer : Option Text) : Except UriError (Option Text) :=
  match labelIssuer with
  | some raw => (Percent.decode raw).map (fun issuer => some issuer |>.filter (fun issuer => issuer ≠ []))
  | none => .ok none

/-! ## Reading the parameters -/

/-- What the query says besides the secret and the PIN. -/
structure Stated where
  algorithm : Option HashAlg
  digits : Option Byte
  period : Option U16
  counter : Option U64

/-- `u8::try_from` on a digit count. -/
def readDigits (raw : Text) : Except OtpError Byte := do
  let value ← parseU64 raw "digits"
  if h : value.val < 256 then return ⟨value.val, h⟩ else throw (.invalidDigits value.val)

/-- `u16::try_from` on a period. -/
def readPeriod (raw : Text) : Except OtpError U16 := do
  let value ← parseU64 raw "period"
  if h : value.val < 2 ^ 16 then return ⟨value.val, h⟩ else throw (.invalidPeriod value.val)

def UriQuery.stated (query : UriQuery) : Except OtpError Stated := do
  let algorithm ← query.read .algorithm HashAlg.fromStr
  let digits ← query.read .digits readDigits
  let period ← query.read .period readPeriod
  let counter ← query.read .counter (fun raw => parseU64 raw "counter")
  return { algorithm := algorithm, digits := digits, period := period, counter := counter }

/-- A value that is given and is not the one that is fixed. -/
def differs {α : Type} [DecidableEq α] (given fixed : Option α) : Bool :=
  match given, fixed with
  | some a, some b => a ≠ b
  | _, _ => false

/-- What the kind is about to override. -/
def overridden (kind : OtpKind) (stated : Stated) (pin : Bool) : List UriWarning :=
  ([("algorithm", differs stated.algorithm kind.fixedAlgorithm), ("digits", differs stated.digits kind.fixedDigits),
    ("period", differs stated.period kind.fixedPeriod), ("counter", stated.counter.isSome && !kind.usesCounter),
    ("pin", pin && !kind.usesPin)].filter Prod.snd).map (fun entry => .ignoredParam entry.1)

/-- The secret as the query gives it. -/
def UriQuery.readSecret (query : UriQuery) (kind : OtpKind) : Except OtpError SecretBytes :=
  match query.known .secret with
  | some raw => decodeField kind.secretEncoding raw
  | none => .error (.uri (.missingParam "secret"))

/-- The builder a query fills in. -/
def builderOf (kind : OtpKind) (secret : SecretBytes) (stated : Stated) (pin : Option SecretBytes) : OtpConfigBuilder where
  kind := kind
  secret := secret
  algorithm := stated.algorithm
  digits := stated.digits
  period := stated.period
  counter := stated.counter.getD 0
  pin := pin

/-- From the query to a configuration, with what it overrides. -/
def readConfig (kind : OtpKind) (query : UriQuery) : Except OtpError (OtpConfig × List UriWarning) := do
  let secret ← query.readSecret kind
  let stated ← query.stated
  if kind.usesCounter ∧ stated.counter = none then throw (.uri (.missingParam "counter"))
  let pin ← query.read .pin (decodeField kind.pinEncoding)
  let config ← (builderOf kind secret stated pin).build
  return (config, overridden kind stated (query.known .pin).isSome)

/-- Of two issuers the parameter is kept. -/
def mergeIssuer (label parameter : Option Text) : Option Text × List UriWarning :=
  match label, parameter with
  | some label, some parameter => (some parameter, if label ≠ parameter then [.issuerMismatch label parameter] else [])
  | some only, none => (some only, [])
  | none, some only => (some only, [])
  | none, none => (none, [])

namespace OtpUri

def new (config : OtpConfig) (issuer : Option Text) (account : Text) : OtpUri where
  config := config
  issuer := issuer.filter (fun issuer => issuer ≠ [])
  account := account
  extra := []

/-! ## The canonical URI -/

/-- The parameters this crate owns, in the order they are written. -/
def params (self : OtpUri) : List (Param × Text) :=
  let kind := self.config.kind.serializesAs
  (.secret, encodeField kind.secretEncoding self.config.secret.bytes) ::
    (self.issuer.map (fun issuer => (Param.issuer, Percent.encode issuer))).toList ++
    (if kind.fixedAlgorithm = none then [(.algorithm, self.config.algorithm.asStr)] else []) ++
    (if kind.fixedDigits = none then [(.digits, decimal self.config.digits.val)] else []) ++
    (if kind.fixedPeriod = none then [(.period, decimal self.config.period.val)] else []) ++
    (if kind.usesCounter then [(.counter, decimal self.config.counter.val)] else []) ++
    (self.config.pin.map (fun pin => (Param.pin, encodeField kind.pinEncoding pin.bytes))).toList

/-- A parameter as it is written. -/
def written (name value : Text) : Text := name ++ '=' :: value

/-- What is written between the type and the query. -/
def label (self : OtpUri) : Text :=
  (match self.issuer with
    | some issuer => Percent.encode issuer ++ [':']
    | none => []) ++ Percent.encode self.account

def toUri (self : OtpUri) : Text :=
  "otpauth://".toList ++ (self.config.kind.serializesAs.uriType ++ '/' :: (self.label ++ '?' :: List.intercalate ['&']
    (self.params.map (fun entry => written entry.1.name.toList entry.2) ++
      self.extra.map (fun entry => written (Percent.encode entry.1) (Percent.encode entry.2)))))

def exportForm (self : OtpUri) : OtpUri :=
  if self.config.kind.serializesAs = self.config.kind then self
  else { self with config := self.config.withKind self.config.kind.serializesAs }

/-! ## Reading a URI -/

/-- A malformed URI, as the crate reports it. -/
def lift {α : Type} (x : Except UriError α) : Except OtpError α := x.mapError .uri

def parseWithWarnings (input : Text) : Except OtpError (OtpUri × List UriWarning) := do
  if MAX_URI_LEN < input.utf8Len then throw (.uri (.tooLong input.utf8Len MAX_URI_LEN))
  let parts ← lift (splitUri input)
  let labelIssuer ← lift (decodeIssuer parts.labelIssuer)
  let account ← lift (Percent.decode parts.account)
  let query ← lift (UriQuery.parse parts.query)
  let (config, ignored) ← readConfig parts.kind query
  let (issuer, mismatch) := mergeIssuer labelIssuer ((query.known .issuer).filter (fun issuer => issuer ≠ []))
  let uri : OtpUri := { config := config, issuer := issuer, account := account, extra := query.extra }
  let canonicalLen := uri.toUri.utf8Len
  if MAX_URI_LEN < canonicalLen then throw (.uri (.canonicalTooLong canonicalLen MAX_URI_LEN))
  return (uri, (if parts.fragment then [.fragmentIgnored] else []) ++ ignored ++ mismatch)

def parse (input : Text) : Except OtpError OtpUri := (parseWithWarnings input).map Prod.fst

end OtpUri

end Misty
