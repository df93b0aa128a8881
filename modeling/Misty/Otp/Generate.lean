import Misty.Lib.Bytes
import Misty.Lib.Hex
import Misty.Lib.Text
import Misty.Otp.Config

/- Code generation of `misty-otp`: the window an instant falls in, and for each of the
   six constructions how a moving factor becomes characters.

   What is proved:
     1. `windowAt_cases` — an instant has a window, or the end of it is past the clock.
     2. `OtpConfig.Reachable.sound` — the builder, every setter and a change of kind
        leave what the kind fixes in place and everything else in range.
     3. `configuration_generates` — such a configuration gives a code of its digits at
        every instant but the last, unless a PIN is missing.
     4. `windows_tile` — the windows of a period follow each other without a gap.

   Correspondence (Rust ↔ Lean):
     `Result`, and a panic                     ↔ `Except Stop`
     `*`, `-`, `/` on `u64`, `checked_add`     ↔ `U64.mul`, `.sub`, `.div`, `.checkedAdd`
     `raw::{dynamic_truncation, decimal_digits}` ↔ `dynamicTruncation`, `decimalDigits`
     `window_at`, `CodeWindow`, `Code`         ↔ `windowAt`, `CodeWindow`, `Code`
     `{hotp, steam, motp, yandex}_value`       ↔ the same names
     `OtpConfig::{value_at, counter_at, generate_at, next_code_at}` ↔ the same names
   HMAC, SHA-256 and MD5 are parameters, each of its output length. Arithmetic that does
   not fit panics, as a build with overflow checks does. The share of a window gone by
   is left out. -/
namespace Misty

/-- How a call ends that gives no value. -/
inductive Stop where
  | error (error : OtpError)
  | panicked
  deriving DecidableEq

/-- `Option::ok_or`. -/
def okOr {ε α : Type} (found : Option α) (error : ε) : Except ε α :=
  match found with
  | some a => .ok a
  | none => .error error

theorem bind_of_ok {ε α β : Type} {x : Except ε α} {f : α → Except ε β} {a : α} (h : x = .ok a) : x >>= f = f a := by
  rw [h]
  rfl

/-! ## Arithmetic -/

namespace U64

/-- `u64::from` on a `u16`. -/
def ofU16 (n : U16) : U64 := ⟨n.val, lt_trans n.isLt (by decide)⟩

def checkedAdd (a b : U64) : Option U64 := if h : a.val + b.val < 2 ^ 64 then some ⟨a.val + b.val, h⟩ else none

def mul (a b : U64) : Except Stop U64 :=
  if h : a.val * b.val < 2 ^ 64 then .ok ⟨a.val * b.val, h⟩ else .error .panicked

def sub (a b : U64) : Except Stop U64 :=
  if b.val ≤ a.val then .ok ⟨a.val - b.val, lt_of_le_of_lt (Nat.sub_le _ _) a.isLt⟩ else .error .panicked

def div (a b : U64) : Except Stop U64 :=
  if b.val = 0 then .error .panicked else .ok ⟨a.val / b.val, lt_of_le_of_lt (Nat.div_le_self _ _) a.isLt⟩

variable {a b c : U64}

theorem mul_of_eq (h : a.val * b.val = c.val) : mul a b = .ok c := by
  unfold mul
  rw [dif_pos (h ▸ c.isLt)]
  exact congrArg Except.ok (Fin.ext h)

theorem sub_of_eq (h : a.val = b.val + c.val) : sub a b = .ok c := by
  unfold sub
  rw [if_pos (by omega)]
  exact congrArg Except.ok (Fin.ext (by simp only; omega))

theorem div_of_pos (h : 0 < b.val) : div a b = .ok ⟨a.val / b.val, lt_of_le_of_lt (Nat.div_le_self _ _) a.isLt⟩ := by
  unfold div
  rw [if_neg (by omega)]

end U64

/-! ## The window -/

structure CodeWindow where
  validFromMs : U64
  validUntilMs : U64
  remainingMs : U64
  deriving DecidableEq

def windowAt (period : U16) (unixMs : U64) : Except Stop (U64 × CodeWindow) := do
  let periodMs ← (U64.ofU16 period).mul 1000
  let counter ← unixMs.div periodMs
  let validFromMs ← counter.mul periodMs
  let validUntilMs ← okOr (validFromMs.checkedAdd periodMs) (.error (.timeOutOfRange unixMs.val))
  let _elapsedMs ← unixMs.sub validFromMs
  let remainingMs ← validUntilMs.sub unixMs
  return (counter, { validFromMs := validFromMs, validUntilMs := validUntilMs, remainingMs := remainingMs })

/-- The first instant past the window of an instant, on a clock without an end. -/
def windowEnd (period : U16) (unixMs : U64) : Nat :=
  unixMs.val / (period.val * 1000) * (period.val * 1000) + period.val * 1000

/-- The window an instant has. -/
structure IsWindow (period : U16) (unixMs counter : U64) (window : CodeWindow) : Prop where
  counter_eq : counter.val = unixMs.val / (period.val * 1000)
  from_eq : window.validFromMs.val = counter.val * (period.val * 1000)
  until_eq : window.validUntilMs.val = window.validFromMs.val + period.val * 1000
  remaining_eq : window.validUntilMs.val = unixMs.val + window.remainingMs.val

/-- An instant has its window, or the window ends past the clock; nothing else goes wrong. -/
theorem windowAt_cases {period : U16} (hperiod : 1 ≤ period.val) (unixMs : U64) :
    (windowEnd period unixMs < 2 ^ 64 ∧
      ∃ counter window, windowAt period unixMs = .ok (counter, window) ∧ IsWindow period unixMs counter window) ∨
    (2 ^ 64 ≤ windowEnd period unixMs ∧ windowAt period unixMs = .error (.error (.timeOutOfRange unixMs.val))) := by
  have hp := period.isLt
  have ht := unixMs.isLt
  have hpos : 0 < period.val * 1000 := by omega
  have hfit : period.val * 1000 < 2 ^ 64 := by omega
  have hle : unixMs.val / (period.val * 1000) * (period.val * 1000) ≤ unixMs.val := Nat.div_mul_le_self _ _
  have hlt : unixMs.val < windowEnd period unixMs := by
    have hdiv := Nat.lt_div_mul_add (a := unixMs.val) hpos
    exact hdiv
  -- each quotient and product fits, so none of the arithmetic overflows
  obtain ⟨periodMs, hperiodMs⟩ : ∃ n : U64, n.val = period.val * 1000 := ⟨⟨_, hfit⟩, rfl⟩
  obtain ⟨counter, hcounter⟩ : ∃ n : U64, n.val = unixMs.val / periodMs.val :=
    ⟨⟨_, lt_of_le_of_lt (Nat.div_le_self _ _) ht⟩, rfl⟩
  obtain ⟨validFromMs, hfrom⟩ : ∃ n : U64, n.val = counter.val * periodMs.val := by
    refine ⟨⟨counter.val * periodMs.val, ?_⟩, rfl⟩
    rw [hcounter, hperiodMs]
    omega
  obtain ⟨elapsedMs, helapsed⟩ : ∃ n : U64, unixMs.val = validFromMs.val + n.val := by
    have hstart : validFromMs.val ≤ unixMs.val := by rw [hfrom, hcounter, hperiodMs]; exact hle
    exact ⟨⟨unixMs.val - validFromMs.val, by omega⟩, (Nat.add_sub_cancel' hstart).symm⟩
  have hend : windowEnd period unixMs = validFromMs.val + periodMs.val := by
    rw [hfrom, hcounter, hperiodMs, windowEnd]
  have hmul : (U64.ofU16 period).mul 1000 = .ok periodMs := U64.mul_of_eq hperiodMs.symm
  have hdiv : unixMs.div periodMs = .ok counter := by
    rw [U64.div_of_pos (by omega)]
    exact congrArg Except.ok (Fin.ext hcounter.symm)
  have hstart : counter.mul periodMs = .ok validFromMs := U64.mul_of_eq hfrom.symm
  -- only the end of the window is added with a check
  rcases Nat.lt_or_ge (windowEnd period unixMs) (2 ^ 64) with hin | hout
  · obtain ⟨validUntilMs, huntil⟩ : ∃ n : U64, n.val = validFromMs.val + periodMs.val := ⟨⟨_, hend ▸ hin⟩, rfl⟩
    obtain ⟨remainingMs, hremaining⟩ : ∃ n : U64, validUntilMs.val = unixMs.val + n.val := by
      have hlater : unixMs.val ≤ validUntilMs.val := by omega
      exact ⟨⟨validUntilMs.val - unixMs.val, by omega⟩, (Nat.add_sub_cancel' hlater).symm⟩
    have hsum : okOr (validFromMs.checkedAdd periodMs) (Stop.error (.timeOutOfRange unixMs.val)) = .ok validUntilMs := by
      unfold U64.checkedAdd
      rw [dif_pos (hend ▸ hin)]
      exact congrArg Except.ok (Fin.ext huntil.symm)
    refine Or.inl ⟨hin, counter, ⟨validFromMs, validUntilMs, remainingMs⟩, ?_, ?_⟩
    · unfold windowAt
      rw [bind_of_ok hmul, bind_of_ok hdiv, bind_of_ok hstart, bind_of_ok hsum, bind_of_ok (U64.sub_of_eq helapsed),
        bind_of_ok (U64.sub_of_eq hremaining)]
      rfl
    · exact ⟨by rw [hcounter, hperiodMs], by rw [hfrom, hperiodMs], by rw [huntil, hperiodMs], hremaining⟩
  · have hsum : okOr (validFromMs.checkedAdd periodMs) (Stop.error (.timeOutOfRange unixMs.val)) =
        .error (.error (.timeOutOfRange unixMs.val)) := by
      unfold U64.checkedAdd
      rw [dif_neg (by omega)]
      rfl
    refine Or.inr ⟨hout, ?_⟩
    unfold windowAt
    rw [bind_of_ok hmul, bind_of_ok hdiv, bind_of_ok hstart, hsum]
    rfl

/-! ## Characters -/

/-- The digests a code is computed from. -/
structure OtpPrims where
  hmac : (alg : HashAlg) → Bytes → Bytes → ByteArr alg.outputLen
  sha256 : Bytes → ByteArr 32
  md5 : Bytes → ByteArr 16

/-- An alphabet of 26 characters. -/
abbrev Alphabet := {l : Text // l.length = 26}

def STEAM_ALPHABET : Alphabet := ⟨"23456789BCDFGHJKMNPQRTVWXY".toList, by decide⟩
def YANDEX_ALPHABET : Alphabet := ⟨"abcdefghijklmnopqrstuvwxyz".toList, by decide⟩
def DECIMAL_DIGITS : Text := "0123456789".toList

/-- `hmac_counter`: the counter as eight big-endian bytes. -/
def hmacCounter (prims : OtpPrims) (alg : HashAlg) (key : Bytes) (counter : U64) : Bytes :=
  (prims.hmac alg key (toLe 8 counter.val).reverse).val

def dynamicTruncation (digest : Bytes) : Except Stop Nat := do
  let last ← okOr digest.getLast? (.error (.internal "cannot truncate an empty digest"))
  let offset := last.val % 2 ^ 4
  let selected ← okOr (slice digest offset 4) (.error (.internal "digest too short for dynamic truncation"))
  return ofLe selected.reverse % 2 ^ 31

def decimalDigits (value : Nat) (digits : Byte) : Except Stop Text := do
  if ¬ (MIN_DIGITS ≤ digits.val ∧ digits.val ≤ MAX_DIGITS) then throw (.error (.invalidDigits digits.val))
  if 2 ^ 64 ≤ 10 ^ digits.val then throw (.error (.internal "digit count overflowed the modulus"))
  return (decimal (value % 10 ^ digits.val)).leftpad digits.val '0'

/-- `base26`, the least significant digit first. -/
def base26 (alphabet : Alphabet) : Nat → Nat → Text
  | 0, _ => []
  | digits + 1, value =>
    alphabet.val.get ⟨value % 26, lt_of_lt_of_eq (Nat.mod_lt value (by decide)) alphabet.property.symm⟩ :: base26 alphabet digits (value / 26)

section Values

variable (prims : OtpPrims)

def hotpValue (algorithm : HashAlg) (secret : Bytes) (counter : U64) (digits : Byte) : Except Stop Text := do
  let truncated ← dynamicTruncation (hmacCounter prims algorithm secret counter)
  decimalDigits truncated digits

def steamValue (secret : Bytes) (counter : U64) (digits : Byte) : Except Stop Text := do
  let truncated ← dynamicTruncation (hmacCounter prims .sha1 secret counter)
  return base26 STEAM_ALPHABET digits.val truncated

def motpValue (secret pin : SecretBytes) (interval : U64) (digits : Byte) : Except Stop Text := do
  let input := (decimal interval.val).utf8 ++ (hexEncode secret.bytes).utf8 ++ pin.bytes
  let truncated := (hexEncode (prims.md5 input).val).take digits.val
  if Text.utf8Len truncated ≠ digits.val then throw (.error (.internal "md5 digest shorter than the digit count"))
  return truncated

/-- The digest of the PIN and the secret, a zero in front of it dropped. -/
def yandexKey (secret pin : SecretBytes) : Bytes :=
  let used := (slice secret.bytes 0 16).getD secret.bytes
  match (prims.sha256 (pin.bytes ++ used)).val with
  | first :: tail => if first = 0 then tail else first :: tail
  | [] => []

def yandexValue (secret pin : SecretBytes) (counter : U64) (digits : Byte) : Except Stop Text := do
  let digest := hmacCounter prims .sha256 (yandexKey prims secret pin) counter
  let last ← okOr digest.getLast? (.error (.internal "empty hmac output"))
  let offset := last.val % 2 ^ 4
  let selected ← okOr (slice digest offset 8) (.error (.internal "hmac output too short for yandex"))
  return (base26 YANDEX_ALPHABET digits.val (ofLe selected.reverse % 2 ^ 63)).reverse

def OtpConfig.valueAt (config : OtpConfig) (movingFactor : U64) : Except Stop Text :=
  match config.kind with
  | .totp | .hotp | .blizzard => hotpValue prims config.algorithm config.secret.bytes movingFactor config.digits
  | .steam => steamValue prims config.secret.bytes movingFactor config.digits
  | .motp => do
    let pin ← okOr config.pin (.error (.missingPin .motp))
    motpValue prims config.secret pin movingFactor config.digits
  | .yandex => do
    let pin ← okOr config.pin (.error (.missingPin .yandex))
    yandexValue prims config.secret pin movingFactor config.digits

structure Code where
  value : Text
  window : Option CodeWindow
  deriving DecidableEq

def OtpConfig.counterAt (config : OtpConfig) (unixMs : U64) : Except Stop U64 :=
  if config.kind.usesCounter then .ok config.counter else (windowAt config.period unixMs).map Prod.fst

def OtpConfig.generateAt (config : OtpConfig) (unixMs : U64) : Except Stop Code :=
  if config.kind.usesCounter then do
    let value ← config.valueAt prims config.counter
    return { value := value, window := none }
  else do
    let (counter, window) ← windowAt config.period unixMs
    let value ← config.valueAt prims counter
    return { value := value, window := some window }

def OtpConfig.nextCodeAt (config : OtpConfig) (unixMs : U64) : Except Stop Code :=
  if config.kind.usesCounter then do
    let next ← okOr (config.counter.checkedAdd 1) (.error (.counterExhausted config.counter.val))
    let value ← config.valueAt prims next
    return { value := value, window := none }
  else do
    let (_, window) ← windowAt config.period unixMs
    config.generateAt prims window.validUntilMs

end Values

/-- The characters a code of a kind is made of. -/
def OtpKind.alphabet : OtpKind → Text
  | .totp | .hotp | .blizzard => DECIMAL_DIGITS
  | .steam => STEAM_ALPHABET.val
  | .motp => HEX_DIGITS
  | .yandex => YANDEX_ALPHABET.val

/-! ## What each construction writes -/

/-- A text of so many characters of an alphabet. -/
def Renders (alphabet : Text) (digits : Nat) (value : Text) : Prop := value.length = digits ∧ ∀ ch ∈ value, ch ∈ alphabet

theorem selected_of_digest {digest : Bytes} {w : Nat} (h : 15 + w ≤ digest.length) (hne : digest ≠ []) :
    ∃ last selected, digest.getLast? = some last ∧ slice digest (last.val % 2 ^ 4) w = some selected := by
  refine ⟨digest.getLast hne, (digest.drop ((digest.getLast hne).val % 2 ^ 4)).take w,
    List.getLast?_eq_getLast_of_ne_nil hne, ?_⟩
  unfold slice
  exact if_pos (by omega)

theorem dynamicTruncation_spec {digest : Bytes} (h : 20 ≤ digest.length) : ∃ value, dynamicTruncation digest = .ok value := by
  have hne : digest ≠ [] := List.ne_nil_of_length_pos (by omega)
  obtain ⟨last, selected, hlast, hselected⟩ := selected_of_digest (w := 4) (le_trans (by decide) h) hne
  refine ⟨ofLe selected.reverse % 2 ^ 31, ?_⟩
  unfold dynamicTruncation
  rw [hlast]
  refine (bind_of_ok rfl).trans ?_
  dsimp only
  rw [hselected]
  rfl

theorem length_hmacCounter (prims : OtpPrims) (alg : HashAlg) (key : Bytes) (counter : U64) :
    20 ≤ (hmacCounter prims alg key counter).length := by
  rw [hmacCounter, (prims.hmac alg key _).property]
  cases alg <;> decide

theorem decimalDigits_spec {digits : Byte} (h : MIN_DIGITS ≤ digits.val ∧ digits.val ≤ MAX_DIGITS) (value : Nat) :
    ∃ text, decimalDigits value digits = .ok text ∧ Renders DECIMAL_DIGITS digits.val text := by
  have hpos : 0 < digits.val := h.1
  have hfit : 10 ^ digits.val < 2 ^ 64 := lt_of_le_of_lt (Nat.pow_le_pow_right (by decide) h.2) (by decide)
  have hlt : value % 10 ^ digits.val < 10 ^ digits.val := Nat.mod_lt _ (Nat.pow_pos (by decide))
  have hlen : (decimal (value % 10 ^ digits.val)).length ≤ digits.val := Nat.toDigits_length _ _ _ hpos hlt
  refine ⟨(decimal (value % 10 ^ digits.val)).leftpad digits.val '0', ?_, ?_, ?_⟩
  · unfold decimalDigits
    exact guard_eq_ok.mpr ⟨not_not.mpr h, guard_eq_ok.mpr ⟨not_le.mpr hfit, rfl⟩⟩
  · rw [List.length_leftpad]
    exact max_eq_left hlen
  · intro ch hch
    have hdigit : ch.isDigit = true → ch ∈ DECIMAL_DIGITS := by
      intro hdigit
      obtain ⟨hlo, hhi⟩ := toNat_of_isDigit hdigit
      have hall : ∀ n, n ≤ 57 → 48 ≤ n → Char.ofNat n ∈ DECIMAL_DIGITS := by decide
      have hmem := hall ch.toNat hhi hlo
      rwa [Char.ofNat_toNat] at hmem
    rcases List.mem_append.mp hch with hzero | hvalue
    · rw [List.eq_of_mem_replicate hzero]
      decide
    · exact hdigit (isDigit_of_mem_decimal hvalue)

theorem base26_spec (alphabet : Alphabet) : ∀ digits value, Renders alphabet.val digits (base26 alphabet digits value)
  | 0, _ => ⟨rfl, fun _ h => absurd h List.not_mem_nil⟩
  | digits + 1, value => by
    obtain ⟨hlen, hmem⟩ := base26_spec alphabet digits (value / 26)
    refine ⟨by rw [base26, List.length_cons, hlen], fun ch hch => ?_⟩
    rcases List.mem_cons.mp hch with rfl | hch
    · exact List.get_mem _ _
    · exact hmem ch hch

theorem Renders.reverse {alphabet value : Text} {digits : Nat} (h : Renders alphabet digits value) :
    Renders alphabet digits value.reverse :=
  ⟨by rw [List.length_reverse, h.1], fun ch hch => h.2 ch (List.mem_reverse.mp hch)⟩

variable {prims : OtpPrims} {config : OtpConfig}

theorem hotpValue_spec {digits : Byte} (h : MIN_DIGITS ≤ digits.val ∧ digits.val ≤ MAX_DIGITS) (algorithm : HashAlg)
    (secret : Bytes) (counter : U64) :
    ∃ text, hotpValue prims algorithm secret counter digits = .ok text ∧ Renders DECIMAL_DIGITS digits.val text := by
  obtain ⟨truncated, htruncated⟩ := dynamicTruncation_spec (length_hmacCounter prims algorithm secret counter)
  obtain ⟨text, htext, hrenders⟩ := decimalDigits_spec h truncated
  refine ⟨text, ?_, hrenders⟩
  unfold hotpValue
  rw [bind_of_ok htruncated, htext]

theorem steamValue_spec (secret : Bytes) (counter : U64) (digits : Byte) :
    ∃ text, steamValue prims secret counter digits = .ok text ∧ Renders STEAM_ALPHABET.val digits.val text := by
  obtain ⟨truncated, htruncated⟩ := dynamicTruncation_spec (length_hmacCounter prims .sha1 secret counter)
  refine ⟨_, ?_, base26_spec STEAM_ALPHABET digits.val truncated⟩
  unfold steamValue
  rw [bind_of_ok htruncated]
  rfl

theorem motpValue_spec {digits : Byte} (h : digits.val ≤ 32) (secret pin : SecretBytes) (interval : U64) :
    ∃ text, motpValue prims secret pin interval digits = .ok text ∧ Renders HEX_DIGITS digits.val text := by
  have hrenders : ∀ digest : ByteArr 16, Renders HEX_DIGITS digits.val ((hexEncode digest.val).take digits.val) := by
    intro digest
    refine ⟨?_, fun ch hch => mem_hexEncode (List.mem_of_mem_take hch)⟩
    rw [List.length_take, length_hexEncode, digest.property]
    omega
  refine ⟨_, ?_, hrenders (prims.md5 ((decimal interval.val).utf8 ++ (hexEncode secret.bytes).utf8 ++ pin.bytes))⟩
  unfold motpValue
  refine guard_eq_ok.mpr ⟨not_not.mpr ?_, rfl⟩
  have hascii : ∀ ch ∈ HEX_DIGITS, ch.toNat < 128 := by simp [HEX_DIGITS]
  rw [Text.utf8Len_ascii (fun ch hch => hascii ch ((hrenders _).2 ch hch)), (hrenders _).1]

theorem yandexValue_spec (secret pin : SecretBytes) (counter : U64) (digits : Byte) :
    ∃ text, yandexValue prims secret pin counter digits = .ok text ∧ Renders YANDEX_ALPHABET.val digits.val text := by
  have hlen : (hmacCounter prims .sha256 (yandexKey prims secret pin) counter).length = 32 :=
    (prims.hmac .sha256 _ _).property
  obtain ⟨last, selected, hlast, hselected⟩ :=
    selected_of_digest (w := 8) (by rw [hlen]; decide) (List.ne_nil_of_length_pos (by rw [hlen]; decide))
  refine ⟨_, ?_, (base26_spec YANDEX_ALPHABET digits.val (ofLe selected.reverse % 2 ^ 63)).reverse⟩
  unfold yandexValue
  dsimp only
  rw [hlast]
  refine (bind_of_ok rfl).trans ?_
  rw [hselected]
  rfl

/-! ## What holds of every configuration -/

/-- What the kind fixes is in place and the rest is in range. -/
structure OtpConfig.Sound (config : OtpConfig) : Prop where
  secret : config.secret.checkLen = .ok ()
  digits : MIN_DIGITS ≤ config.digits.val ∧ config.digits.val ≤ MAX_DIGITS
  period : MIN_PERIOD ≤ config.period.val ∧ config.period.val ≤ MAX_PERIOD
  fixedDigits : ∀ d, config.kind.fixedDigits = some d → config.digits = d
  fixedPeriod : ∀ p, config.kind.fixedPeriod = some p → config.period = p
  fixedAlgorithm : ∀ a, config.kind.fixedAlgorithm = some a → config.algorithm = a
  counter : config.kind.usesCounter = false → config.counter = 0
  pin : config.kind.keptPin config.pin = config.pin

/-- The configurations a program can hold: built, by the six constructors too, then changed by the setters and between
kinds. -/
inductive OtpConfig.Reachable : OtpConfig → Prop where
  | built {builder : OtpConfigBuilder} {config : OtpConfig} (h : builder.build = .ok config) : Reachable config
  | setDigits {config config' : OtpConfig} (digits : Byte) (hc : Reachable config) (h : config.setDigits digits = .ok config') :
      Reachable config'
  | setPeriod {config config' : OtpConfig} (period : U16) (hc : Reachable config) (h : config.setPeriod period = .ok config') :
      Reachable config'
  | setAlgorithm {config : OtpConfig} (algorithm : HashAlg) (hc : Reachable config) : Reachable (config.setAlgorithm algorithm)
  | setCounter {config : OtpConfig} (counter : U64) (hc : Reachable config) : Reachable (config.setCounter counter)
  | setPin {config : OtpConfig} (pin : Option SecretBytes) (hc : Reachable config) : Reachable (config.setPin pin)
  | setSecret {config config' : OtpConfig} (secret : SecretBytes) (hc : Reachable config)
      (h : config.setSecret secret = .ok config') : Reachable config'
  | withKind {config : OtpConfig} (kind : OtpKind) (hc : Reachable config) : Reachable (config.withKind kind)

theorem range_of_checkDigits {digits d : Byte} (h : checkDigits digits = .ok d) :
    d = digits ∧ MIN_DIGITS ≤ digits.val ∧ digits.val ≤ MAX_DIGITS := by
  unfold checkDigits at h
  split at h
  · next hrange => exact ⟨(Except.ok.inj h).symm, hrange⟩
  · cases h

theorem range_of_checkPeriod {period p : U16} (h : checkPeriod period = .ok p) :
    p = period ∧ MIN_PERIOD ≤ period.val ∧ period.val ≤ MAX_PERIOD := by
  unfold checkPeriod at h
  split at h
  · next hrange => exact ⟨(Except.ok.inj h).symm, hrange⟩
  · cases h

/-- Every default, and so everything a kind fixes, passes its own check. -/
theorem OtpKind.defaults_in_range (kind : OtpKind) :
    (MIN_DIGITS ≤ kind.defaultDigits.val ∧ kind.defaultDigits.val ≤ MAX_DIGITS) ∧
    (MIN_PERIOD ≤ kind.defaultPeriod.val ∧ kind.defaultPeriod.val ≤ MAX_PERIOD) := by
  cases kind <;> decide

theorem OtpKind.fixedDigits_eq {kind : OtpKind} {d : Byte} (h : kind.fixedDigits = some d) : d = kind.defaultDigits := by
  cases kind <;> cases h <;> rfl

theorem OtpKind.fixedPeriod_eq {kind : OtpKind} {p : U16} (h : kind.fixedPeriod = some p) : p = kind.defaultPeriod := by
  cases kind <;> cases h <;> rfl

theorem OtpKind.fixedDigits_getD_range (kind : OtpKind) {d : Byte} (h : MIN_DIGITS ≤ d.val ∧ d.val ≤ MAX_DIGITS) :
    MIN_DIGITS ≤ (kind.fixedDigits.getD d).val ∧ (kind.fixedDigits.getD d).val ≤ MAX_DIGITS := by
  cases hfixed : kind.fixedDigits with
  | none => exact h
  | some fixed =>
    rw [Option.getD_some, fixedDigits_eq hfixed]
    exact kind.defaults_in_range.1

theorem OtpKind.fixedPeriod_getD_range (kind : OtpKind) {p : U16} (h : MIN_PERIOD ≤ p.val ∧ p.val ≤ MAX_PERIOD) :
    MIN_PERIOD ≤ (kind.fixedPeriod.getD p).val ∧ (kind.fixedPeriod.getD p).val ≤ MAX_PERIOD := by
  cases hfixed : kind.fixedPeriod with
  | none => exact h
  | some fixed =>
    rw [Option.getD_some, fixedPeriod_eq hfixed]
    exact kind.defaults_in_range.2

theorem getD_of_eq_some {α : Type} {o : Option α} {a b : α} (h : o = some a) : o.getD b = a := by
  rw [h, Option.getD_some]

theorem OtpKind.keptPin_idem (kind : OtpKind) (pin : Option SecretBytes) : kind.keptPin (kind.keptPin pin) = kind.keptPin pin := by
  unfold OtpKind.keptPin
  split
  · rw [Option.filter_filter]
    simp
  · rfl

namespace OtpConfig

/-- What is asked of a builder is in range. -/
def Builds (builder : OtpConfigBuilder) : Prop :=
  builder.secret.checkLen = .ok () ∧
  (∀ d, builder.digits = some d → MIN_DIGITS ≤ d.val ∧ d.val ≤ MAX_DIGITS) ∧
  ∀ p, builder.period = some p → MIN_PERIOD ≤ p.val ∧ p.val ≤ MAX_PERIOD

/-- What a builder in range builds. -/
def ofBuilder (builder : OtpConfigBuilder) : OtpConfig where
  kind := builder.kind
  secret := builder.secret
  algorithm := builder.kind.fixedAlgorithm.getD (builder.algorithm.getD builder.kind.defaultAlgorithm)
  digits := builder.kind.fixedDigits.getD (builder.digits.getD builder.kind.defaultDigits)
  period := builder.kind.fixedPeriod.getD (builder.period.getD builder.kind.defaultPeriod)
  counter := if builder.kind.usesCounter then builder.counter else 0
  pin := builder.kind.keptPin builder.pin

theorem build_eq_ok {builder : OtpConfigBuilder} : builder.build = .ok config ↔ Builds builder ∧ config = ofBuilder builder := by
  have hpure : ∀ {α : Type} {a b : α}, (pure a : Except OtpError α) = .ok b ↔ b = a :=
    ⟨fun h => (Except.ok.inj h).symm, fun h => congrArg Except.ok h.symm⟩
  have hdigits : ∀ {d d' : Byte}, checkDigits d = .ok d' ↔ d' = d ∧ MIN_DIGITS ≤ d.val ∧ d.val ≤ MAX_DIGITS :=
    ⟨range_of_checkDigits, fun h => by rw [checkDigits, if_pos h.2, h.1]⟩
  have hperiod : ∀ {p p' : U16}, checkPeriod p = .ok p' ↔ p' = p ∧ MIN_PERIOD ≤ p.val ∧ p.val ≤ MAX_PERIOD :=
    ⟨range_of_checkPeriod, fun h => by rw [checkPeriod, if_pos h.2, h.1]⟩
  unfold OtpConfigBuilder.build Builds ofBuilder
  rw [bind_eq_ok]
  cases builder.digits <;> cases builder.period <;> dsimp only <;>
    simp only [bind_eq_ok, hdigits, hperiod, hpure, Except.ok.injEq, Option.getD_some, Option.getD_none, Option.some.injEq,
      reduceCtorEq, false_implies, implies_true, true_and, forall_eq', exists_eq_left', exists_eq_left, and_assoc]
  all_goals exact ⟨fun ⟨(), h⟩ => h, fun h => ⟨(), h⟩⟩

theorem sound_of_build {builder : OtpConfigBuilder} (h : builder.build = .ok config) : config.Sound := by
  obtain ⟨⟨hsecret, hdigits, hperiod⟩, rfl⟩ := build_eq_ok.mp h
  have hd : MIN_DIGITS ≤ (builder.digits.getD builder.kind.defaultDigits).val ∧
      (builder.digits.getD builder.kind.defaultDigits).val ≤ MAX_DIGITS := by
    cases hgiven : builder.digits with
    | none => exact builder.kind.defaults_in_range.1
    | some given => exact hdigits given hgiven
  have hp : MIN_PERIOD ≤ (builder.period.getD builder.kind.defaultPeriod).val ∧
      (builder.period.getD builder.kind.defaultPeriod).val ≤ MAX_PERIOD := by
    cases hgiven : builder.period with
    | none => exact builder.kind.defaults_in_range.2
    | some given => exact hperiod given hgiven
  exact {
    secret := hsecret
    digits := builder.kind.fixedDigits_getD_range hd
    period := builder.kind.fixedPeriod_getD_range hp
    fixedDigits := fun d hd => getD_of_eq_some hd
    fixedPeriod := fun p hp => getD_of_eq_some hp
    fixedAlgorithm := fun a ha => getD_of_eq_some ha
    counter := fun hcounter => if_neg (fun h => Bool.false_ne_true (hcounter.symm.trans h))
    pin := builder.kind.keptPin_idem builder.pin }

namespace Sound

variable {config' : OtpConfig}

theorem setDigits {digits : Byte} (hs : config.Sound) (h : config.setDigits digits = .ok config') : config'.Sound := by
  unfold OtpConfig.setDigits at h
  cases hcheck : checkDigits digits with
  | error e =>
    rw [hcheck] at h
    cases h
  | ok d =>
    rw [hcheck] at h
    cases h
    obtain ⟨rfl, hrange⟩ := range_of_checkDigits hcheck
    exact { hs with
      digits := config.kind.fixedDigits_getD_range hrange
      fixedDigits := fun d hd => getD_of_eq_some hd }

theorem setPeriod {period : U16} (hs : config.Sound) (h : config.setPeriod period = .ok config') : config'.Sound := by
  unfold OtpConfig.setPeriod at h
  cases hcheck : checkPeriod period with
  | error e =>
    rw [hcheck] at h
    cases h
  | ok p =>
    rw [hcheck] at h
    cases h
    obtain ⟨rfl, hrange⟩ := range_of_checkPeriod hcheck
    exact { hs with
      period := config.kind.fixedPeriod_getD_range hrange
      fixedPeriod := fun p hp => getD_of_eq_some hp }

theorem setAlgorithm (hs : config.Sound) (algorithm : HashAlg) : (config.setAlgorithm algorithm).Sound :=
  { hs with fixedAlgorithm := fun _ ha => getD_of_eq_some ha }

theorem setCounter (hs : config.Sound) (counter : U64) : (config.setCounter counter).Sound := by
  unfold OtpConfig.setCounter
  split
  · next hcounter => exact { hs with counter := fun h => absurd (hcounter.symm.trans h) Bool.noConfusion }
  · exact hs

theorem setPin (hs : config.Sound) (pin : Option SecretBytes) : (config.setPin pin).Sound :=
  { hs with pin := config.kind.keptPin_idem pin }

theorem setSecret {secret : SecretBytes} (hs : config.Sound) (h : config.setSecret secret = .ok config') : config'.Sound := by
  unfold OtpConfig.setSecret at h
  cases hcheck : secret.checkLen with
  | error e =>
    rw [hcheck] at h
    cases h
  | ok u =>
    rw [hcheck] at h
    cases h
    exact { hs with secret := hcheck }

theorem withKind (hs : config.Sound) (kind : OtpKind) : (config.withKind kind).Sound where
  secret := hs.secret
  digits := kind.fixedDigits_getD_range hs.digits
  period := kind.fixedPeriod_getD_range hs.period
  fixedDigits := fun d hd => getD_of_eq_some hd
  fixedPeriod := fun p hp => getD_of_eq_some hp
  fixedAlgorithm := fun a ha => getD_of_eq_some ha
  counter := fun hcounter => if_neg (fun h => Bool.false_ne_true (hcounter.symm.trans h))
  pin := by
    -- A PIN that was kept is not empty, so it is kept again.
    show kind.keptPin (if kind.usesPin then config.pin else none) = if kind.usesPin then config.pin else none
    unfold OtpKind.keptPin
    split
    · have hkept := hs.pin
      cases hpin : config.pin with
      | none => rfl
      | some pin =>
        rw [hpin] at hkept
        unfold OtpKind.keptPin at hkept
        split at hkept
        · exact hkept
        · cases hkept
    · rfl

end Sound

theorem Reachable.sound (h : Reachable config) : config.Sound := by
  induction h with
  | built h => exact sound_of_build h
  | setDigits digits _ h ih => exact ih.setDigits h
  | setPeriod period _ h ih => exact ih.setPeriod h
  | setAlgorithm algorithm _ ih => exact ih.setAlgorithm algorithm
  | setCounter counter _ ih => exact ih.setCounter counter
  | setPin pin _ ih => exact ih.setPin pin
  | setSecret secret _ h ih => exact ih.setSecret h
  | withKind kind _ ih => exact ih.withKind kind

/-- A sound configuration gives a code for every moving factor, unless its PIN is missing. -/
theorem Sound.valueAt_cases (hs : config.Sound) (prims : OtpPrims) (movingFactor : U64) :
    (config.kind.usesPin = true ∧ config.pin = none ∧
      config.valueAt prims movingFactor = .error (.error (.missingPin config.kind))) ∨
    (¬ (config.kind.usesPin = true ∧ config.pin = none) ∧
      ∃ value, config.valueAt prims movingFactor = .ok value ∧ Renders config.kind.alphabet config.digits.val value) := by
  have hfixed := hs.fixedDigits
  unfold valueAt
  cases hkind : config.kind with
  | totp | hotp | blizzard =>
    exact Or.inr ⟨fun h => absurd h.1 (by decide), hotpValue_spec hs.digits _ _ _⟩
  | steam => exact Or.inr ⟨fun h => absurd h.1 (by decide), steamValue_spec _ _ _⟩
  | motp =>
    have hdigits : config.digits.val ≤ 32 := by
      rw [hfixed 6 (by rw [hkind]; rfl)]
      decide
    cases config.pin with
    | none => exact Or.inl ⟨rfl, rfl, rfl⟩
    | some pin => exact Or.inr ⟨fun h => absurd h.2 (Option.some_ne_none pin), motpValue_spec hdigits _ _ _⟩
  | yandex =>
    cases config.pin with
    | none => exact Or.inl ⟨rfl, rfl, rfl⟩
    | some pin => exact Or.inr ⟨fun h => absurd h.2 (Option.some_ne_none pin), yandexValue_spec _ _ _ _⟩

end OtpConfig

/-! ## Every configuration generates -/

/-- The end of the window is past the clock. -/
def OtpConfig.OutOfRange (config : OtpConfig) (unixMs : U64) : Prop :=
  config.kind.isTimeBased = true ∧ 2 ^ 64 ≤ windowEnd config.period unixMs

/-- The kind needs a PIN and there is none. -/
def OtpConfig.LacksPin (config : OtpConfig) : Prop := config.kind.usesPin = true ∧ config.pin = none

theorem OtpKind.usesCounter_eq (kind : OtpKind) : kind.usesCounter = !kind.isTimeBased := by cases kind <;> rfl

theorem OtpKind.isTimeBased_of_usesPin {kind : OtpKind} (h : kind.usesPin = true) : kind.isTimeBased = true := by
  cases kind <;> first | rfl | cases h

/-- At an instant a sound configuration is out of range, or lacks its PIN, or gives a code. -/
theorem OtpConfig.Sound.generateAt_cases (hs : config.Sound) (prims : OtpPrims) (unixMs : U64) :
    (config.OutOfRange unixMs ∧ config.generateAt prims unixMs = .error (.error (.timeOutOfRange unixMs.val))) ∨
    (¬ config.OutOfRange unixMs ∧ config.LacksPin ∧
      config.generateAt prims unixMs = .error (.error (.missingPin config.kind))) ∨
    (¬ config.OutOfRange unixMs ∧ ¬ config.LacksPin ∧
      ∃ code, config.generateAt prims unixMs = .ok code ∧ Renders config.kind.alphabet config.digits.val code.value) := by
  unfold generateAt
  rw [OtpKind.usesCounter_eq]
  cases htime : config.kind.isTimeBased with
  | false =>
    have hin : ¬ config.OutOfRange unixMs := fun h => Bool.false_ne_true (htime.symm.trans h.1)
    have hpin : ¬ config.LacksPin := fun h =>
      Bool.false_ne_true (htime.symm.trans (OtpKind.isTimeBased_of_usesPin h.1))
    rcases hs.valueAt_cases prims config.counter with ⟨hpins, hnone, -⟩ | ⟨-, value, hvalue, hrenders⟩
    · exact absurd ⟨hpins, hnone⟩ hpin
    · exact Or.inr (Or.inr ⟨hin, hpin, ⟨value, none⟩, by rw [Bool.not_false, if_pos rfl, bind_of_ok hvalue]; rfl, hrenders⟩)
  | true =>
    rw [Bool.not_true, if_neg Bool.false_ne_true]
    rcases windowAt_cases hs.period.1 unixMs with ⟨hend, counter, window, hwindow, -⟩ | ⟨hend, herror⟩
    · have hin : ¬ config.OutOfRange unixMs := fun h => absurd h.2 (not_le.mpr hend)
      rw [bind_of_ok hwindow]
      rcases hs.valueAt_cases prims counter with ⟨hpins, hnone, herror⟩ | ⟨hpin, value, hvalue, hrenders⟩
      · exact Or.inr (Or.inl ⟨hin, ⟨hpins, hnone⟩, by dsimp only; rw [herror]; rfl⟩)
      · exact Or.inr (Or.inr ⟨hin, hpin, ⟨value, some window⟩, by dsimp only; rw [bind_of_ok hvalue]; rfl, hrenders⟩)
    · exact Or.inl ⟨⟨htime, hend⟩, by rw [herror]; rfl⟩

/-- A configuration a program can hold has the parameters its kind fixes, and at every instant gives a code of so many
characters of its alphabet, unless its window ends past the clock or else its PIN is missing; there is no other error and
no panic. -/
theorem configuration_generates (prims : OtpPrims) (h : OtpConfig.Reachable config) (unixMs : U64) :
    ((∀ d, config.kind.fixedDigits = some d → config.digits = d) ∧ (∀ p, config.kind.fixedPeriod = some p → config.period = p) ∧
      ∀ a, config.kind.fixedAlgorithm = some a → config.algorithm = a) ∧
    (config.generateAt prims unixMs = .error (.error (.timeOutOfRange unixMs.val)) ↔ config.OutOfRange unixMs) ∧
    (config.generateAt prims unixMs = .error (.error (.missingPin config.kind)) ↔
      ¬ config.OutOfRange unixMs ∧ config.LacksPin) ∧
    (¬ config.OutOfRange unixMs → ¬ config.LacksPin → ∃ code, config.generateAt prims unixMs = .ok code ∧
      code.value.length = config.digits.val ∧ ∀ ch ∈ code.value, ch ∈ config.kind.alphabet) ∧
    ∀ stop, config.generateAt prims unixMs = .error stop →
      stop = .error (.timeOutOfRange unixMs.val) ∨ stop = .error (.missingPin config.kind) := by
  have hs := h.sound
  refine ⟨⟨hs.fixedDigits, hs.fixedPeriod, hs.fixedAlgorithm⟩, ?_⟩
  rcases hs.generateAt_cases prims unixMs with ⟨hout, heq⟩ | ⟨hin, hpin, heq⟩ | ⟨hin, hpin, code, heq, hrenders⟩
  · rw [heq]
    exact ⟨⟨fun _ => hout, fun _ => rfl⟩, ⟨fun h => (by cases h), fun h => absurd hout h.1⟩, fun hin => absurd hout hin,
      fun stop hstop => Or.inl (Except.error.inj hstop).symm⟩
  · rw [heq]
    exact ⟨⟨fun h => (by cases h), fun h => absurd h hin⟩, ⟨fun _ => ⟨hin, hpin⟩, fun _ => rfl⟩, fun _ hno => absurd hpin hno,
      fun stop hstop => Or.inr (Except.error.inj hstop).symm⟩
  · rw [heq]
    exact ⟨⟨fun h => (by cases h), fun h => absurd h hin⟩, ⟨fun h => (by cases h), fun h => absurd h.2 hpin⟩,
      fun _ _ => ⟨code, rfl, hrenders⟩, fun stop hstop => (by cases hstop)⟩

/-- Digests of clear bytes. -/
def OtpPrims.sample : OtpPrims where
  hmac := fun alg _ _ => ByteArr.repeated alg.outputLen 0
  sha256 := fun _ => ByteArr.repeated 32 0
  md5 := fun _ => ByteArr.repeated 16 0

/-- A Steam secret of one byte, five milliseconds into the clock. -/
theorem configuration_generates_sample : ∃ config : OtpConfig, OtpConfig.Reachable config ∧
    ∃ code, config.generateAt OtpPrims.sample 5 = .ok code ∧ code.value.length = 5 := by
  have hbuild : (OtpConfigBuilder.new .steam ⟨[1]⟩).build = .ok (OtpConfig.ofBuilder (OtpConfigBuilder.new .steam ⟨[1]⟩)) := by
    rfl
  obtain ⟨-, -, -, hcode, -⟩ := configuration_generates OtpPrims.sample (.built hbuild) 5
  obtain ⟨code, heq, hlen, -⟩ := hcode (fun h => absurd h.2 (by decide)) (fun h => absurd h.1 (by decide))
  exact ⟨_, .built hbuild, code, heq, hlen⟩

/-! ## Windows tile the clock -/

theorem noPanic_bind {α β : Type} {x : Except Stop α} {f : α → Except Stop β} (hx : x ≠ .error .panicked)
    (hf : ∀ a, f a ≠ .error .panicked) : x >>= f ≠ .error .panicked := by
  cases x with
  | error stop => exact fun h => hx (congrArg Except.error (Except.error.inj h))
  | ok a => exact hf a

theorem noPanic_okOr {α : Type} (found : Option α) (error : OtpError) : okOr found (.error error) ≠ .error Stop.panicked := by
  cases found with
  | none => exact fun h => nomatch h
  | some a => exact fun h => nomatch h

theorem noPanic_guard {α : Type} {c : Prop} [Decidable c] {error : OtpError} {rest : Unit → Except Stop α}
    (h : rest () ≠ .error .panicked) :
    (have jp := rest
     if c then (throw (Stop.error error) : Except Stop Unit) >>= jp else jp ()) ≠ .error .panicked := by
  by_cases hc : c
  · simp only [hc, if_true]
    exact fun h => nomatch h
  · simpa only [hc, if_false] using h

theorem noPanic_ok {α : Type} (a : α) : (.ok a : Except Stop α) ≠ .error .panicked := fun h => nomatch h

theorem dynamicTruncation_noPanic (digest : Bytes) : dynamicTruncation digest ≠ .error .panicked :=
  noPanic_bind (noPanic_okOr _ _) (fun _ => noPanic_bind (noPanic_okOr _ _) (fun _ => noPanic_ok _))

theorem decimalDigits_noPanic (value : Nat) (digits : Byte) : decimalDigits value digits ≠ .error .panicked := by
  unfold decimalDigits
  apply noPanic_guard
  apply noPanic_guard
  exact noPanic_ok _

theorem motpValue_noPanic (prims : OtpPrims) (secret pin : SecretBytes) (interval : U64) (digits : Byte) :
    motpValue prims secret pin interval digits ≠ .error .panicked := by
  unfold motpValue
  apply noPanic_guard
  exact noPanic_ok _

/-- Making the characters never panics, whatever the parameters. -/
theorem OtpConfig.valueAt_noPanic (prims : OtpPrims) (config : OtpConfig) (movingFactor : U64) :
    config.valueAt prims movingFactor ≠ .error .panicked := by
  unfold valueAt
  cases config.kind with
  | totp | hotp | blizzard =>
    exact noPanic_bind (dynamicTruncation_noPanic _) (fun _ => decimalDigits_noPanic _ _)
  | steam => exact noPanic_bind (dynamicTruncation_noPanic _) (fun _ => noPanic_ok _)
  | motp => exact noPanic_bind (noPanic_okOr _ _) (fun _ => motpValue_noPanic _ _ _ _ _)
  | yandex =>
    exact noPanic_bind (noPanic_okOr _ _) (fun _ => noPanic_bind (noPanic_okOr _ _) (fun _ =>
      noPanic_bind (noPanic_okOr _ _) (fun _ => noPanic_ok _)))

theorem windowAt_noPanic {period : U16} (hperiod : 1 ≤ period.val) (unixMs : U64) : windowAt period unixMs ≠ .error .panicked := by
  rcases windowAt_cases hperiod unixMs with ⟨-, counter, window, hwindow, -⟩ | ⟨-, herror⟩
  · rw [hwindow]
    exact noPanic_ok _
  · rw [herror]
    exact fun h => nomatch h

theorem OtpConfig.generateAt_noPanic (prims : OtpPrims) (hperiod : 1 ≤ config.period.val) (unixMs : U64) :
    config.generateAt prims unixMs ≠ .error .panicked := by
  unfold generateAt
  split
  · exact noPanic_bind (valueAt_noPanic prims config _) (fun _ => noPanic_ok _)
  · exact noPanic_bind (windowAt_noPanic hperiod unixMs) (fun _ =>
      noPanic_bind (valueAt_noPanic prims config _) (fun _ => noPanic_ok _))

theorem OtpConfig.nextCodeAt_noPanic (prims : OtpPrims) (hperiod : 1 ≤ config.period.val) (unixMs : U64) :
    config.nextCodeAt prims unixMs ≠ .error .panicked := by
  unfold nextCodeAt
  split
  · exact noPanic_bind (noPanic_okOr _ _) (fun _ => noPanic_bind (valueAt_noPanic prims config _) (fun _ => noPanic_ok _))
  · exact noPanic_bind (windowAt_noPanic hperiod unixMs) (fun _ => generateAt_noPanic prims hperiod _)

/-- No whole number of windows fills the clock: five divides a window and not a power of two. -/
theorem window_not_dvd (period : U16) : ¬ period.val * 1000 ∣ 2 ^ 64 := by
  intro h
  have hfive : 5 ∣ 2 ^ 64 := dvd_trans (Dvd.dvd.mul_left (by decide) period.val) h
  exact absurd hfive (by decide)

theorem windowEnd_ge {period : U16} (hperiod : 1 ≤ period.val) (unixMs : U64) :
    2 ^ 64 ≤ windowEnd period unixMs ↔ 2 ^ 64 / (period.val * 1000) * (period.val * 1000) ≤ unixMs.val := by
  have hndvd := window_not_dvd period
  have hpos : 0 < period.val * 1000 := by omega
  unfold windowEnd
  generalize period.val * 1000 = width at hndvd hpos ⊢
  have hlast : 2 ^ 64 / width * width < 2 ^ 64 := by
    refine lt_of_le_of_ne (Nat.div_mul_le_self _ _) (fun heq => hndvd ⟨2 ^ 64 / width, ?_⟩)
    rw [Nat.mul_comm]
    exact heq.symm
  rw [← Nat.le_div_iff_mul_le hpos]
  constructor
  · intro h
    have hnext : 2 ^ 64 / width * width < (unixMs.val / width + 1) * width := by
      rw [Nat.succ_mul]
      exact lt_of_lt_of_le hlast h
    exact Nat.lt_succ_iff.mp (Nat.lt_of_mul_lt_mul_right hnext)
  · intro h
    have hwhole : 2 ^ 64 < 2 ^ 64 / width * width + width := Nat.lt_div_mul_add hpos
    have hmono : 2 ^ 64 / width * width ≤ unixMs.val / width * width := Nat.mul_le_mul_right width h
    omega

/-- A time-based code is the value of its window's counter. -/
theorem OtpConfig.generateAt_timeBased (hkind : config.kind.isTimeBased = true) {unixMs : U64} {code : Code}
    (h : config.generateAt prims unixMs = .ok code) : ∃ counter window, windowAt config.period unixMs = .ok (counter, window) ∧
      code.window = some window ∧ config.counterAt unixMs = .ok counter := by
  have hcounter : ¬ config.kind.usesCounter = true := by
    rw [OtpKind.usesCounter_eq, hkind]
    decide
  unfold generateAt at h
  rw [if_neg hcounter] at h
  obtain ⟨⟨counter, window⟩, hwindow, h⟩ := bind_eq_ok.mp h
  obtain ⟨value, -, h⟩ := bind_eq_ok.mp h
  cases h
  refine ⟨counter, window, hwindow, rfl, ?_⟩
  unfold counterAt
  rw [if_neg hcounter, hwindow]
  rfl

theorem isWindow_of_ok {period : U16} (hperiod : 1 ≤ period.val) {unixMs counter : U64} {window : CodeWindow}
    (h : windowAt period unixMs = .ok (counter, window)) : IsWindow period unixMs counter window := by
  rcases windowAt_cases hperiod unixMs with ⟨-, counter', window', heq, hwindow⟩ | ⟨-, herror⟩
  · rw [heq] at h
    cases h
    exact hwindow
  · rw [herror] at h
    cases h

namespace IsWindow

variable {period : U16} {unixMs unixMs' counter counter' : U64} {window window' : CodeWindow}

theorem contains (hperiod : 1 ≤ period.val) (h : IsWindow period unixMs counter window) :
    window.validFromMs.val ≤ unixMs.val ∧ unixMs.val < window.validUntilMs.val := by
  have hle := Nat.div_mul_le_self unixMs.val (period.val * 1000)
  have hlt := Nat.lt_div_mul_add (a := unixMs.val) (b := period.val * 1000) (by omega)
  rw [h.until_eq, h.from_eq, h.counter_eq]
  exact ⟨hle, hlt⟩

/-- Windows are shared exactly when counters are. -/
theorem shared_iff (hperiod : 1 ≤ period.val) (h : IsWindow period unixMs counter window)
    (h' : IsWindow period unixMs' counter' window') : counter = counter' ↔
      window.validFromMs = window'.validFromMs ∧ window.validUntilMs = window'.validUntilMs := by
  rw [Fin.ext_iff, Fin.ext_iff, Fin.ext_iff, h.until_eq, h'.until_eq, h.from_eq, h'.from_eq]
  constructor
  · intro heq
    rw [heq]
    exact ⟨rfl, rfl⟩
  · intro heq
    exact Nat.eq_of_mul_eq_mul_right (by omega) heq.1

theorem next (hperiod : 1 ≤ period.val) (h : IsWindow period unixMs counter window)
    (h' : IsWindow period window.validUntilMs counter' window') : counter'.val = counter.val + 1 := by
  rw [h'.counter_eq, h.until_eq, h.from_eq, ← Nat.succ_mul, Nat.mul_div_cancel _ (by omega)]

end IsWindow

/-- The windows of a period follow each other without a gap: an instant is in its own, whose counter is the number of whole
periods of whole seconds gone by; the next code is the code of the window after; nothing overflows on the way; and only the
last, incomplete period has no window. -/
theorem windows_tile (prims : OtpPrims) (hkind : config.kind.isTimeBased = true)
    (hperiod : MIN_PERIOD ≤ config.period.val ∧ config.period.val ≤ MAX_PERIOD) :
    (∀ unixMs code, config.generateAt prims unixMs = .ok code → ∃ counter window,
      code.window = some window ∧ config.counterAt unixMs = .ok counter ∧
      counter.val = unixMs.val / 1000 / config.period.val ∧
      window.validFromMs.val ≤ unixMs.val ∧ unixMs.val < window.validUntilMs.val ∧
      window.validUntilMs.val - window.validFromMs.val = config.period.val * 1000 ∧
      window.remainingMs.val = window.validUntilMs.val - unixMs.val) ∧
    (∀ unixMs unixMs' code code' window window', config.generateAt prims unixMs = .ok code →
      config.generateAt prims unixMs' = .ok code' → code.window = some window → code'.window = some window' →
      (config.counterAt unixMs = config.counterAt unixMs' ↔
        window.validFromMs = window'.validFromMs ∧ window.validUntilMs = window'.validUntilMs)) ∧
    (∀ unixMs code, config.nextCodeAt prims unixMs = .ok code → ∃ counter window counter',
      windowAt config.period unixMs = .ok (counter, window) ∧ config.generateAt prims window.validUntilMs = .ok code ∧
      config.counterAt unixMs = .ok counter ∧ config.counterAt window.validUntilMs = .ok counter' ∧
      counter'.val = counter.val + 1) ∧
    (∀ unixMs, config.generateAt prims unixMs ≠ .error .panicked ∧ config.nextCodeAt prims unixMs ≠ .error .panicked) ∧
    ¬ config.period.val * 1000 ∣ 2 ^ 64 ∧
    ∀ unixMs : U64, (∃ stop, windowAt config.period unixMs = .error stop) ↔
      2 ^ 64 / (config.period.val * 1000) * (config.period.val * 1000) ≤ unixMs.val := by
  have hpos : 1 ≤ config.period.val := hperiod.1
  have hcounter : ¬ config.kind.usesCounter = true := by
    rw [OtpKind.usesCounter_eq, hkind]
    decide
  refine ⟨?_, ?_, ?_, fun unixMs => ⟨OtpConfig.generateAt_noPanic prims hpos unixMs,
    OtpConfig.nextCodeAt_noPanic prims hpos unixMs⟩, window_not_dvd config.period, ?_⟩
  -- the code carries the window that its instant lies in
  · intro unixMs code h
    obtain ⟨counter, window, hwindow, hcode, hcounterAt⟩ := OtpConfig.generateAt_timeBased hkind h
    have his := isWindow_of_ok hpos hwindow
    have hin := his.contains hpos
    refine ⟨counter, window, hcode, hcounterAt, ?_, hin.1, hin.2, ?_, ?_⟩
    · rw [his.counter_eq, Nat.div_div_eq_div_mul, Nat.mul_comm]
    · rw [his.until_eq, Nat.add_sub_cancel_left]
    · rw [his.remaining_eq, Nat.add_sub_cancel_left]
  -- two instants share a counter when they share a window
  · intro unixMs unixMs' code code' window window' h h' hw hw'
    obtain ⟨counter, found, hwindow, hcode, hcounterAt⟩ := OtpConfig.generateAt_timeBased hkind h
    obtain ⟨counter', found', hwindow', hcode', hcounterAt'⟩ := OtpConfig.generateAt_timeBased hkind h'
    obtain rfl : found = window := Option.some.inj (hcode.symm.trans hw)
    obtain rfl : found' = window' := Option.some.inj (hcode'.symm.trans hw')
    rw [hcounterAt, hcounterAt', Except.ok.injEq]
    exact (isWindow_of_ok hpos hwindow).shared_iff hpos (isWindow_of_ok hpos hwindow')
  -- the next code is that of the instant at which this window ends
  · intro unixMs code h
    unfold OtpConfig.nextCodeAt at h
    rw [if_neg hcounter] at h
    obtain ⟨⟨counter, window⟩, hwindow, h⟩ := bind_eq_ok.mp h
    obtain ⟨counter', window', hwindow', -, hcounterAt'⟩ := OtpConfig.generateAt_timeBased hkind h
    refine ⟨counter, window, counter', hwindow, h, ?_, hcounterAt', (isWindow_of_ok hpos hwindow).next hpos (isWindow_of_ok hpos hwindow')⟩
    unfold OtpConfig.counterAt
    rw [if_neg hcounter, hwindow]
    rfl
  · intro unixMs
    -- a window that would end past the last instant is an error, and there is no other
    rw [← windowEnd_ge hpos]
    constructor
    · intro h
      obtain ⟨stop, hstop⟩ := h
      rcases windowAt_cases hpos unixMs with ⟨-, counter, window, hwindow, -⟩ | ⟨hend, -⟩
      · rw [hwindow] at hstop
        cases hstop
      · exact hend
    · intro hend
      rcases windowAt_cases hpos unixMs with ⟨hlt, -⟩ | ⟨-, herror⟩
      · exact absurd hend (not_le.mpr hlt)
      · exact ⟨_, herror⟩

/-- Of a Steam secret of one byte, at one minute. -/
theorem windows_tile_sample :
    (OtpConfig.ofBuilder (OtpConfigBuilder.new .steam ⟨[1]⟩)).generateAt OtpPrims.sample 60000 ≠ .error .panicked := by
  have hkind : (OtpConfig.ofBuilder (OtpConfigBuilder.new .steam ⟨[1]⟩)).kind.isTimeBased = true := rfl
  exact ((windows_tile OtpPrims.sample hkind ⟨by decide, by decide⟩).2.2.2.1 60000).1

end Misty
