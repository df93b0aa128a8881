import Misty.Lib.Exec
import Misty.Otp.Parse

/- How strict the `otpauth://` parser is about meaning: what a parsed URI says for certain
   about the text it was parsed from.

   What is proved:
     1. `UriQuery.slot_of_parse` — a slot holds the one value its parameter has in the
        query, or nothing when it has none.
     2. `otpauth_strict_iff` — everything the parser promises holds of a parsed URI exactly
        when no number in it has a sign: the standard library reads a leading `+`. -/
namespace Misty

open Percent

/-! ## What the text says -/

namespace UriQuery

/-- The raw value a pair gives a parameter, if it names it. -/
def valueOf (param : Param) (pair : Text) : Option Text :=
  if pair = [] then none
  else
    let (rawName, rawValue) := (splitOnce ['='] pair).getD (pair, [])
    if (decode rawName).toOption.bind Param.of = some param then some rawValue else none

/-- The raw values of a parameter, its name decoded and in either case. -/
def valuesOf (param : Param) (pairs : List Text) : List Text := pairs.filterMap (valueOf param)

/-- A slot holds the only value there is, or there is none. -/
def Slot (values : List Text) (slot : Option Text) : Prop :=
  (values = [] ∧ slot = none) ∨ ∃ raw value, values = [raw] ∧ decode raw = .ok value ∧ slot = some value

/-- A pair gives its value to one parameter, whose slot is free, and to no other. -/
theorem valueOf_step {parsed parsed' : UriQuery} {pair : Text} (h : step parsed pair = .ok parsed') (param : Param) :
    (valueOf param pair = none ∧ parsed'.known param = parsed.known param) ∨
    ∃ raw value, valueOf param pair = some raw ∧ decode raw = .ok value ∧ parsed.known param = none ∧
      parsed'.known param = some value := by
  rcases step_eq_ok h with ⟨rfl, rfl⟩ | ⟨hne, rawName, rawValue, name, value, hsplit, -, hname, hvalue, hadd⟩
  · exact Or.inl ⟨rfl, rfl⟩
  · have hfound : valueOf param pair = if Param.of name = some param then some rawValue else none := by
      unfold valueOf
      rw [if_neg hne, hsplit]
      dsimp only
      rw [hname]
      rfl
    rcases add_eq_ok hadd with ⟨other, hof, hfree, rfl⟩ | ⟨hof, rfl⟩
    · by_cases heq : other = param
      · subst heq
        refine Or.inr ⟨rawValue, value, by rw [hfound, if_pos hof], hvalue, hfree, ?_⟩
        exact Function.update_self _ _ _
      · have hnot : ¬ Param.of name = some param := fun hsome => heq (Option.some.inj (hof.symm.trans hsome))
        refine Or.inl ⟨by rw [hfound, if_neg hnot], ?_⟩
        exact Function.update_of_ne (fun hsame => heq hsame.symm) _ _
    · have hnot : ¬ Param.of name = some param := fun hsome => absurd (hof.symm.trans hsome) (Option.some_ne_none param).symm
      exact Or.inl ⟨by rw [hfound, if_neg hnot], rfl⟩

/-- Over a whole query: a slot that is taken stays as it is and its parameter does not occur, one that is free takes the
only value there is. -/
theorem slot_of_foldlM (param : Param) : ∀ {pairs : List Text} {parsed parsed' : UriQuery},
    pairs.foldlM step parsed = .ok parsed' →
      (parsed.known param = none → Slot (valuesOf param pairs) (parsed'.known param)) ∧
      ∀ value, parsed.known param = some value → valuesOf param pairs = [] ∧ parsed'.known param = some value
  | [], parsed, _, h => by
    rw [List.foldlM_nil] at h
    cases h
    exact ⟨fun hfree => Or.inl ⟨rfl, hfree⟩, fun _ htaken => ⟨rfl, htaken⟩⟩
  | pair :: pairs, parsed, _, h => by
    rw [List.foldlM_cons] at h
    obtain ⟨next, hnext, h⟩ := bind_eq_ok.mp h
    obtain ⟨hfree, htaken⟩ := slot_of_foldlM param h
    unfold valuesOf at hfree htaken ⊢
    rw [List.filterMap_cons]
    rcases valueOf_step hnext param with ⟨hnone, hsame⟩ | ⟨raw, value, hsome, hdecode, hopen, hfilled⟩
    · rw [hnone, ← hsame]
      exact ⟨hfree, htaken⟩
    · obtain ⟨hrest, hkept⟩ := htaken value hfilled
      rw [hsome]
      refine ⟨fun _ => Or.inr ⟨raw, value, by rw [hrest], hdecode, hkept⟩, fun v hv => ?_⟩
      rw [hopen] at hv
      cases hv

theorem slot_of_parse {query : Text} {parsed : UriQuery} (h : parse query = .ok parsed) (param : Param) :
    Slot (valuesOf param (splitAll '&' query)) (parsed.known param) :=
  (slot_of_foldlM param h).1 rfl

end UriQuery

/-- The pairs of a URI's query. -/
def OtpUri.pairsOf (input : Text) : List Text :=
  match splitUri input with
  | .ok parts => splitAll '&' parts.query
  | .error _ => []

/-! ## What the parser promises -/

/-- A number is written in digits, and used or said to be ignored. -/
def NumberUsed (pairs : List Text) (param : Param) (used : Nat) (warnings : List UriWarning) : Prop :=
  ∀ raw ∈ UriQuery.valuesOf param pairs, ∃ value, decode raw = .ok value ∧ value ≠ [] ∧ value.all Char.isDigit = true ∧
    (used = Nat.ofDigitChars 10 value 0 ∨ .ignoredParam param.name ∈ warnings)

/-- Strict about meaning: a parameter at most once, a number in digits, HOTP with its counter, whatever the kind overrides
reported, and no text that would not be shown as what it is. -/
structure OtpUri.Strict (pairs : List Text) (u : OtpUri) (warnings : List UriWarning) : Prop where
  once : ∀ param, (UriQuery.valuesOf param pairs).length ≤ 1
  digits : NumberUsed pairs .digits u.config.digits.val warnings
  period : NumberUsed pairs .period u.config.period.val warnings
  counter : NumberUsed pairs .counter u.config.counter.val warnings
  hotp : u.config.kind = .hotp → UriQuery.valuesOf .counter pairs ≠ []
  algorithm : ∀ raw ∈ UriQuery.valuesOf .algorithm pairs, ∃ value algorithm, decode raw = .ok value ∧
    HashAlg.fromStr value = .ok algorithm ∧ (u.config.algorithm = algorithm ∨ .ignoredParam "algorithm" ∈ warnings)
  pin : ∀ raw ∈ UriQuery.valuesOf .pin pairs, ∃ value pin, decode raw = .ok value ∧
    decodeField u.config.kind.pinEncoding value = .ok pin ∧
    (u.config.pin = (some pin).filter (fun pin => pin.bytes ≠ []) ∨ .ignoredParam "pin" ∈ warnings)
  issuer : ∀ issuer, u.issuer = some issuer → Clean issuer
  account : Clean u.account
  extra : ∀ entry ∈ u.extra, Clean entry.1 ∧ Clean entry.2

/-- No number that is decoded starts with a plus sign. -/
def UriQuery.Unsigned (pairs : List Text) : Prop :=
  ∀ param ∈ [Param.digits, .period, .counter], ∀ raw ∈ UriQuery.valuesOf param pairs, ∀ value, decode raw = .ok value →
    value.head? ≠ some '+'

theorem strip_unsigned : ∀ text : Text, text.head? ≠ some '+' →
    (match text with
      | '+' :: rest => rest
      | _ => text) = text := by
  intro text
  split
  · exact fun hsign => absurd rfl hsign
  · exact fun _ => rfl

theorem parseDecimal_unsigned {text : Text} (hsign : text.head? ≠ some '+') : parseDecimal text =
    if text ≠ [] ∧ text.all Char.isDigit then
      if h : Nat.ofDigitChars 10 text 0 < 2 ^ 64 then some ⟨Nat.ofDigitChars 10 text 0, h⟩ else none
    else none :=
  congrArg (fun digits : Text =>
    if digits ≠ [] ∧ digits.all Char.isDigit then
      if h : Nat.ofDigitChars 10 digits 0 < 2 ^ 64 then some (⟨Nat.ofDigitChars 10 digits 0, h⟩ : U64) else none
    else none) (strip_unsigned text hsign)

/-- Without a sign, what is read as a number is its digits. -/
theorem digits_of_parseDecimal {text : Text} {n : U64} (h : parseDecimal text = some n) (hsign : text.head? ≠ some '+') :
    text ≠ [] ∧ text.all Char.isDigit = true ∧ n.val = Nat.ofDigitChars 10 text 0 := by
  rw [parseDecimal_unsigned hsign] at h
  by_cases hdigits : text ≠ [] ∧ text.all Char.isDigit = true
  · rw [if_pos hdigits] at h
    by_cases hlt : Nat.ofDigitChars 10 text 0 < 2 ^ 64
    · rw [dif_pos hlt] at h
      cases h
      exact ⟨hdigits.1, hdigits.2, rfl⟩
    · rw [dif_neg hlt] at h
      cases h
  · rw [if_neg hdigits] at h
    cases h

/-! ## What the stages give -/

namespace ReadsAs

variable {kind : OtpKind} {query : UriQuery} {config : OtpConfig} {ignored : List UriWarning} {secret : SecretBytes}
  {stated : Stated} {pin : Option SecretBytes}

theorem read_some {α : Type} {param : Param} {f : Text → Except OtpError α} {found : Option α} {raw : Text}
    (h : query.read param f = .ok found) (hraw : query.known param = some raw) : ∃ a, f raw = .ok a ∧ found = some a := by
  unfold UriQuery.read at h
  rw [hraw] at h
  dsimp only at h
  cases hf : f raw with
  | error e =>
    rw [hf] at h
    cases h
  | ok a =>
    rw [hf] at h
    exact ⟨a, rfl, (Except.ok.inj h).symm⟩

theorem read_none {α : Type} {param : Param} {f : Text → Except OtpError α} {found : Option α}
    (h : query.read param f = .ok found) (hnone : query.known param = none) : found = none := by
  unfold UriQuery.read at h
  rw [hnone] at h
  exact (Except.ok.inj h).symm

theorem stated_fields (h : ReadsAs kind query config ignored secret stated pin) :
    query.read .algorithm HashAlg.fromStr = .ok stated.algorithm ∧ query.read .digits readDigits = .ok stated.digits ∧
    query.read .period readPeriod = .ok stated.period ∧
    query.read .counter (fun raw => parseU64 raw "counter") = .ok stated.counter := by
  have hstated := h.stated_eq
  unfold UriQuery.stated at hstated
  obtain ⟨algorithm, halgorithm, hstated⟩ := bind_eq_ok.mp hstated
  obtain ⟨digits, hdigits, hstated⟩ := bind_eq_ok.mp hstated
  obtain ⟨period, hperiod, hstated⟩ := bind_eq_ok.mp hstated
  obtain ⟨counter, hcounter, hstated⟩ := bind_eq_ok.mp hstated
  cases hstated
  exact ⟨halgorithm, hdigits, hperiod, hcounter⟩

theorem parseU64_eq_ok {value : Text} {name : String} {n : U64} (h : parseU64 value name = .ok n) : parseDecimal value = some n := by
  unfold parseU64 at h
  split at h
  · next found hfound => rw [hfound, Except.ok.inj h]
  · cases h

theorem readDigits_eq_ok {raw : Text} {d : Byte} (h : readDigits raw = .ok d) : ∃ n, parseDecimal raw = some n ∧ d.val = n.val := by
  unfold readDigits at h
  obtain ⟨n, hn, h⟩ := bind_eq_ok.mp h
  split at h
  · cases h
    exact ⟨n, parseU64_eq_ok hn, rfl⟩
  · cases h

theorem readPeriod_eq_ok {raw : Text} {p : U16} (h : readPeriod raw = .ok p) : ∃ n, parseDecimal raw = some n ∧ p.val = n.val := by
  unfold readPeriod at h
  obtain ⟨n, hn, h⟩ := bind_eq_ok.mp h
  split at h
  · cases h
    exact ⟨n, parseU64_eq_ok hn, rfl⟩
  · cases h

theorem mem_overridden {name : String} {flag : Bool} (hflag : flag = true)
    (h : (name, flag) ∈ [("algorithm", differs stated.algorithm kind.fixedAlgorithm), ("digits", differs stated.digits kind.fixedDigits),
      ("period", differs stated.period kind.fixedPeriod), ("counter", stated.counter.isSome && !kind.usesCounter),
      ("pin", (query.known .pin).isSome && !kind.usesPin)]) :
    .ignoredParam name ∈ overridden kind stated (query.known .pin).isSome :=
  List.mem_map.mpr ⟨(name, flag), List.mem_filter.mpr ⟨h, hflag⟩, rfl⟩

/-- A stated value is used, or differs from the one that is fixed. -/
theorem used_or_differs {α : Type} [DecidableEq α] {used value default : α} {fixed found : Option α}
    (hused : used = fixed.getD (found.getD default)) (hfound : found = some value) :
    used = value ∨ differs found fixed = true := by
  rw [hfound] at hused ⊢
  cases fixed with
  | none => exact .inl hused
  | some a =>
    by_cases h : value = a
    · exact .inl (hused.trans h.symm)
    · exact .inr (decide_eq_true h)

section Used

variable {value : Text} (hr : ReadsAs kind query config ignored secret stated pin)

include hr

theorem config_eq : config = OtpConfig.ofBuilder (builderOf kind secret stated pin) :=
  (OtpConfig.build_eq_ok.mp hr.build_eq).2

/-- A parameter whose value a kind may fix is used, or reported. -/
theorem fixed_used {α : Type} [DecidableEq α] {used given default : α} {fixed found : Option α} {name : String}
    (hused : used = fixed.getD (found.getD default)) (hfound : found = some given)
    (hname : (name, differs found fixed) ∈ [("algorithm", differs stated.algorithm kind.fixedAlgorithm),
      ("digits", differs stated.digits kind.fixedDigits), ("period", differs stated.period kind.fixedPeriod),
      ("counter", stated.counter.isSome && !kind.usesCounter), ("pin", (query.known .pin).isSome && !kind.usesPin)]) :
    used = given ∨ .ignoredParam name ∈ ignored := by
  refine (used_or_differs hused hfound).imp_right fun hdiffers => ?_
  rw [hr.ignored_eq]
  exact mem_overridden hdiffers hname

theorem algorithm_used (hvalue : query.known .algorithm = some value) : ∃ algorithm,
    HashAlg.fromStr value = .ok algorithm ∧ (config.algorithm = algorithm ∨ .ignoredParam "algorithm" ∈ ignored) := by
  obtain ⟨algorithm, halgorithm, hstated⟩ := read_some hr.stated_fields.1 hvalue
  have hconfig : config.algorithm = kind.fixedAlgorithm.getD (stated.algorithm.getD kind.defaultAlgorithm) := by
    rw [hr.config_eq]
    rfl
  exact ⟨algorithm, halgorithm, hr.fixed_used hconfig hstated (by simp)⟩

theorem digits_used (hvalue : query.known .digits = some value) : ∃ n,
    parseDecimal value = some n ∧ (config.digits.val = n.val ∨ .ignoredParam "digits" ∈ ignored) := by
  obtain ⟨d, hd, hstated⟩ := read_some hr.stated_fields.2.1 hvalue
  obtain ⟨n, hn, heq⟩ := readDigits_eq_ok hd
  have hconfig : config.digits = kind.fixedDigits.getD (stated.digits.getD kind.defaultDigits) := by
    rw [hr.config_eq]
    rfl
  have hused : config.digits = d ∨ .ignoredParam "digits" ∈ ignored := hr.fixed_used hconfig hstated (by simp)
  exact ⟨n, hn, hused.imp_left fun h => (congrArg Fin.val h).trans heq⟩

theorem period_used (hvalue : query.known .period = some value) : ∃ n,
    parseDecimal value = some n ∧ (config.period.val = n.val ∨ .ignoredParam "period" ∈ ignored) := by
  obtain ⟨d, hd, hstated⟩ := read_some hr.stated_fields.2.2.1 hvalue
  obtain ⟨n, hn, heq⟩ := readPeriod_eq_ok hd
  have hconfig : config.period = kind.fixedPeriod.getD (stated.period.getD kind.defaultPeriod) := by
    rw [hr.config_eq]
    rfl
  have hused : config.period = d ∨ .ignoredParam "period" ∈ ignored := hr.fixed_used hconfig hstated (by simp)
  exact ⟨n, hn, hused.imp_left fun h => (congrArg Fin.val h).trans heq⟩

theorem counter_used (hvalue : query.known .counter = some value) : ∃ n,
    parseDecimal value = some n ∧ (config.counter.val = n.val ∨ .ignoredParam "counter" ∈ ignored) := by
  obtain ⟨n, hn, hstated⟩ := read_some hr.stated_fields.2.2.2 hvalue
  refine ⟨n, parseU64_eq_ok hn, ?_⟩
  cases huses : kind.usesCounter with
  | true =>
    refine .inl ?_
    rw [hr.config_eq]
    show (if kind.usesCounter then stated.counter.getD 0 else 0).val = _
    rw [if_pos huses, hstated]
    rfl
  | false =>
    have hflag : (stated.counter.isSome && !kind.usesCounter) = true := by
      rw [hstated, huses]
      rfl
    rw [hr.ignored_eq]
    exact .inr (mem_overridden hflag (by simp))

theorem pin_used (hvalue : query.known .pin = some value) : ∃ p, decodeField kind.pinEncoding value = .ok p ∧
    (config.pin = (some p).filter (fun p => p.bytes ≠ []) ∨ .ignoredParam "pin" ∈ ignored) := by
  obtain ⟨p, hpin, hgiven⟩ := read_some hr.pin_eq hvalue
  refine ⟨p, hpin, ?_⟩
  cases huses : kind.usesPin with
  | true =>
    refine .inl ?_
    rw [hr.config_eq]
    show kind.keptPin pin = _
    rw [hgiven, OtpKind.keptPin, if_pos huses]
  | false =>
    have hflag : ((query.known .pin).isSome && !kind.usesPin) = true := by
      rw [hvalue, huses]
      rfl
    rw [hr.ignored_eq]
    exact .inr (mem_overridden hflag (by simp))

end Used

end ReadsAs

/-! ## Strict but for a sign -/

namespace UriQuery

variable {values : List Text} {slot : Option Text}

theorem Slot.length_le (h : Slot values slot) : values.length ≤ 1 := by
  rcases h with ⟨rfl, -⟩ | ⟨raw, value, rfl, -, -⟩
  · exact Nat.zero_le 1
  · exact le_rfl

theorem Slot.value (h : Slot values slot) {raw : Text} (hraw : raw ∈ values) :
    ∃ value, decode raw = .ok value ∧ slot = some value := by
  rcases h with ⟨rfl, -⟩ | ⟨found, value, rfl, hdecode, hslot⟩
  · exact absurd hraw List.not_mem_nil
  · obtain rfl := List.mem_singleton.mp hraw
    exact ⟨value, hdecode, hslot⟩

theorem Slot.free (h : Slot values slot) (hnil : values = []) : slot = none := by
  rcases h with ⟨-, hnone⟩ | ⟨raw, value, rfl, -, -⟩
  · exact hnone
  · cases hnil

end UriQuery

/-- A number of the query that is read, used or overridden, keeps the promise when it has no sign. -/
theorem numberUsed_of_slot {pairs : List Text} {param : Param} {slot : Option Text} {used : Nat} {warnings : List UriWarning}
    (hslot : UriQuery.Slot (UriQuery.valuesOf param pairs) slot)
    (hsign : ∀ raw ∈ UriQuery.valuesOf param pairs, ∀ value, decode raw = .ok value → value.head? ≠ some '+')
    (hread : ∀ value, slot = some value → ∃ n, parseDecimal value = some n ∧
      (used = n.val ∨ .ignoredParam param.name ∈ warnings)) : NumberUsed pairs param used warnings := by
  intro raw hraw
  obtain ⟨value, hdecode, hvalue⟩ := hslot.value hraw
  obtain ⟨n, hn, hused⟩ := hread value hvalue
  obtain ⟨hne, hall, hdigits⟩ := digits_of_parseDecimal hn (hsign raw hraw value hdecode)
  exact ⟨value, hdecode, hne, hall, hused.imp_left (fun h => h.trans hdigits)⟩

/-- A promise about a number excludes the sign. -/
theorem NumberUsed.unsigned {pairs : List Text} {param : Param} {used : Nat} {warnings : List UriWarning}
    (h : NumberUsed pairs param used warnings) :
    ∀ raw ∈ UriQuery.valuesOf param pairs, ∀ value, decode raw = .ok value → value.head? ≠ some '+' := by
  intro raw hraw value hvalue hsign
  obtain ⟨found, hdecode, -, hall, -⟩ := h raw hraw
  obtain rfl : found = value := Except.ok.inj (hdecode.symm.trans hvalue)
  have hdigit := List.all_eq_true.mp hall '+' (List.mem_of_mem_head? hsign)
  exact absurd hdigit (by decide)

/-- The parser keeps its promises about a URI exactly when no number in it has a sign. -/
theorem otpauth_strict_iff {input : Text} {u : OtpUri} {warnings : List UriWarning}
    (h : OtpUri.parseWithWarnings input = .ok (u, warnings)) :
    OtpUri.Strict (OtpUri.pairsOf input) u warnings ↔ UriQuery.Unsigned (OtpUri.pairsOf input) := by
  obtain ⟨parts, labelIssuer, query, ignored, hp⟩ := OtpUri.parse_eq_ok h
  obtain ⟨secret, stated, pin, hr⟩ := readConfig_eq_ok hp.config_eq
  have hpairs : OtpUri.pairsOf input = splitAll '&' parts.query := by
    rw [OtpUri.pairsOf, hp.split_eq]
  have hslot := UriQuery.slot_of_parse hp.query_eq
  have hsane := UriQuery.sane_of_parse hp.query_eq
  have hkind : u.config.kind = parts.kind := by rw [hr.config_eq]; rfl
  -- what the configuration ignores is among the warnings
  have hreported : ∀ {name : String}, .ignoredParam name ∈ ignored → .ignoredParam name ∈ warnings := by
    intro name hmem
    rw [hp.warnings_eq]
    exact List.mem_append_left _ (List.mem_append_right _ hmem)
  have hnumber : ∀ {used n : Nat} {name : String}, (used = n ∨ .ignoredParam name ∈ ignored) →
      used = n ∨ .ignoredParam name ∈ warnings := fun hused => hused.imp_right hreported
  rw [hpairs]
  constructor
  · intro hstrict param hparam
    simp only [List.mem_cons, List.not_mem_nil, or_false] at hparam
    rcases hparam with rfl | rfl | rfl
    · exact hstrict.digits.unsigned
    · exact hstrict.period.unsigned
    · exact hstrict.counter.unsigned
  · intro hsign
    exact {
      once := fun param => (hslot param).length_le
      digits := by
        refine numberUsed_of_slot (hslot .digits) (hsign .digits (by simp)) (fun value hvalue => ?_)
        obtain ⟨n, hn, hused⟩ := hr.digits_used hvalue
        exact ⟨n, hn, hnumber hused⟩
      period := by
        refine numberUsed_of_slot (hslot .period) (hsign .period (by simp)) (fun value hvalue => ?_)
        obtain ⟨n, hn, hused⟩ := hr.period_used hvalue
        exact ⟨n, hn, hnumber hused⟩
      counter := by
        refine numberUsed_of_slot (hslot .counter) (hsign .counter (by simp)) (fun value hvalue => ?_)
        obtain ⟨n, hn, hused⟩ := hr.counter_used hvalue
        exact ⟨n, hn, hnumber hused⟩
      hotp := by
        intro hhotp hnil
        refine hr.counter_ne ⟨?_, ReadsAs.read_none hr.stated_fields.2.2.2 ((hslot .counter).free hnil)⟩
        rw [← hkind, hhotp]
        rfl
      algorithm := by
        intro raw hraw
        obtain ⟨value, hdecode, hvalue⟩ := (hslot .algorithm).value hraw
        obtain ⟨algorithm, halgorithm, hused⟩ := hr.algorithm_used hvalue
        exact ⟨value, algorithm, hdecode, halgorithm, hused.imp_right hreported⟩
      pin := by
        intro raw hraw
        obtain ⟨value, hdecode, hvalue⟩ := (hslot .pin).value hraw
        obtain ⟨p, hpin, hused⟩ := hr.pin_used hvalue
        exact ⟨value, p, hdecode, hkind ▸ hpin, hused.imp_right hreported⟩
      issuer := by
        intro i hi
        rw [hp.issuer_eq] at hi
        refine OtpUri.mergeIssuer_keeps (fun l hl => (OtpUri.decodeIssuer_eq_ok hp.label_eq l hl).2)
          (fun parameter hparameter => ?_) i hi
        exact hsane.known .issuer parameter (Option.filter_eq_some_iff.mp hparameter).1
      account := (decode_eq_ok.mp hp.account_eq).2
      extra := by
        rw [hp.extra_eq]
        exact fun entry hentry => (hsane.extra entry hentry).2.2 }

/-- A digit count in digits is read as the parser promises. -/
theorem otpauth_strict_iff_sample : ∃ u warnings,
    OtpUri.parseWithWarnings "otpauth://totp/?secret=JBSWY3DP&digits=8".toList = .ok (u, warnings) ∧
      OtpUri.Strict (OtpUri.pairsOf "otpauth://totp/?secret=JBSWY3DP&digits=8".toList) u warnings := by
  have hparsed : (OtpUri.parseWithWarnings "otpauth://totp/?secret=JBSWY3DP&digits=8".toList).toOption.any
      (fun _ => true) = true := by
    decide +kernel
  obtain ⟨⟨u, warnings⟩, hu, -⟩ := exists_of_toOption_any hparsed
  refine ⟨u, warnings, hu, (otpauth_strict_iff hu).mpr ?_⟩
  have hnumbers : ∀ param ∈ [Param.digits, .period, .counter],
      ∀ raw ∈ UriQuery.valuesOf param (OtpUri.pairsOf "otpauth://totp/?secret=JBSWY3DP&digits=8".toList),
        (decode raw).toOption.all (fun value => value.head? ≠ some '+') = true := by
    decide +kernel
  intro param hparam raw hraw value hdecode
  have hnumber := hnumbers param hparam raw hraw
  rw [hdecode] at hnumber
  exact of_decide_eq_true hnumber

/-- A digit count with a plus sign is read. -/
theorem signed_digits_accepted : ∃ u warnings,
    OtpUri.parseWithWarnings "otpauth://totp/?secret=JBSWY3DP&digits=+6".toList = .ok (u, warnings) ∧
      ¬ OtpUri.Strict (OtpUri.pairsOf "otpauth://totp/?secret=JBSWY3DP&digits=+6".toList) u warnings := by
  have hparsed : (OtpUri.parseWithWarnings "otpauth://totp/?secret=JBSWY3DP&digits=+6".toList).toOption.any
      (fun _ => true) = true := by
    decide +kernel
  obtain ⟨⟨u, warnings⟩, hu, -⟩ := exists_of_toOption_any hparsed
  refine ⟨u, warnings, hu, fun hstrict => ?_⟩
  have hraw : ['+', '6'] ∈ UriQuery.valuesOf .digits (OtpUri.pairsOf "otpauth://totp/?secret=JBSWY3DP&digits=+6".toList) := by
    decide +kernel
  obtain ⟨value, hdecode, -, hall, -⟩ := hstrict.digits _ hraw
  have hvalue : (decode ['+', '6']).toOption = some ['+', '6'] := by decide +kernel
  rw [hdecode] at hvalue
  obtain rfl : value = ['+', '6'] := Option.some.inj hvalue
  exact absurd hall (by decide)

end Misty
