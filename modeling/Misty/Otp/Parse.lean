import Misty.Otp.Uri

/- What a URI that is parsed was parsed from: every stage of the parser taken apart once, so
   that a property of parsed URIs is read off the stages.

   What is proved:
     1. `UriQuery.foldlM_keeps` — what every pair of a query keeps, the whole query keeps.
     2. `UriQuery.sane_of_parse` — the texts of a parsed query are read as they stand.
     3. `readConfig_eq_ok`, `OtpUri.parse_eq_ok` — the stages of a successful parse. -/
namespace Misty

open Percent

namespace UriQuery

/-- The texts of a query are read as they stand, and the others have a name that is not a parameter's. -/
structure Sane (query : UriQuery) : Prop where
  known : ∀ param value, query.known param = some value → Clean value
  extra : ∀ entry ∈ query.extra, entry.1 ≠ [] ∧ Param.of entry.1 = none ∧ Clean entry.1 ∧ Clean entry.2

theorem step_eq_ok {parsed parsed' : UriQuery} {pair : Text} (h : step parsed pair = .ok parsed') :
    (pair = [] ∧ parsed' = parsed) ∨ (pair ≠ [] ∧ ∃ rawName rawValue name value,
      (splitOnce ['='] pair).getD (pair, []) = (rawName, rawValue) ∧ rawName ≠ [] ∧ decode rawName = .ok name ∧
      decode rawValue = .ok value ∧ parsed.add name value = .ok parsed') := by
  unfold step at h
  split at h
  · next hnil => exact Or.inl ⟨hnil, (Except.ok.inj h).symm⟩
  · next hne =>
    cases hsplit : (splitOnce ['='] pair).getD (pair, []) with
    | mk rawName rawValue =>
      rw [hsplit] at h
      obtain ⟨hname, h⟩ := guard_eq_ok.mp h
      obtain ⟨name, hdecode, h⟩ := bind_eq_ok.mp h
      obtain ⟨value, hvalue, h⟩ := bind_eq_ok.mp h
      exact Or.inr ⟨hne, rawName, rawValue, name, value, rfl, hname, hdecode, hvalue, h⟩

/-- A parameter fills its free slot, anything else is kept beside. -/
theorem add_eq_ok {parsed parsed' : UriQuery} {name value : Text} (h : parsed.add name value = .ok parsed') :
    (∃ param, Param.of name = some param ∧ parsed.known param = none ∧
      parsed' = { parsed with known := Function.update parsed.known param (some value) }) ∨
    (Param.of name = none ∧ parsed' = { parsed with extra := parsed.extra ++ [(name, value)] }) := by
  unfold add at h
  cases hof : Param.of name with
  | none =>
    rw [hof] at h
    exact Or.inr ⟨rfl, (Except.ok.inj h).symm⟩
  | some param =>
    rw [hof] at h
    dsimp only at h
    unfold setOnce at h
    split at h
    · cases h
    · next hfree => exact Or.inl ⟨param, rfl, Option.not_isSome_iff_eq_none.mp hfree, (Except.ok.inj h).symm⟩

theorem Sane.step {parsed parsed' : UriQuery} {pair : Text} (hs : parsed.Sane) (h : UriQuery.step parsed pair = .ok parsed') :
    parsed'.Sane := by
  rcases step_eq_ok h with ⟨-, rfl⟩ | ⟨-, rawName, rawValue, name, value, -, hne, hname, hvalue, hadd⟩
  · exact hs
  · rcases add_eq_ok hadd with ⟨param, -, -, rfl⟩ | ⟨hof, rfl⟩
    · refine ⟨fun other v hv => ?_, hs.extra⟩
      have hv : Function.update parsed.known param (some value) other = some v := hv
      by_cases heq : other = param
      · subst heq
        rw [Function.update_self] at hv
        exact Option.some.inj hv ▸ (decode_eq_ok.mp hvalue).2
      · rw [Function.update_of_ne heq] at hv
        exact hs.known other v hv
    · refine ⟨hs.known, fun entry hentry => ?_⟩
      rcases List.mem_append.mp hentry with hentry | hentry
      · exact hs.extra entry hentry
      · rw [List.mem_singleton.mp hentry]
        exact ⟨decode_ne_nil hname hne, hof, (decode_eq_ok.mp hname).2, (decode_eq_ok.mp hvalue).2⟩

theorem foldlM_keeps {P : UriQuery → Prop} (hstep : ∀ parsed parsed' pair, P parsed → step parsed pair = .ok parsed' → P parsed') :
    ∀ {pairs : List Text} {parsed parsed' : UriQuery}, pairs.foldlM step parsed = .ok parsed' → P parsed → P parsed'
  | [], _, _, h, hp => by
    rw [List.foldlM_nil] at h
    exact Except.ok.inj h ▸ hp
  | pair :: pairs, parsed, _, h, hp => by
    rw [List.foldlM_cons] at h
    obtain ⟨next, hnext, h⟩ := bind_eq_ok.mp h
    exact foldlM_keeps hstep h (hstep parsed next pair hp hnext)

theorem sane_of_parse {query : Text} {parsed : UriQuery} (h : parse query = .ok parsed) : parsed.Sane :=
  foldlM_keeps (fun _ _ _ hs hstep => hs.step hstep) h
    ⟨fun _ _ hv => (by cases hv), fun _ he => absurd he List.not_mem_nil⟩

end UriQuery

/-- What a configuration that is read was read from. -/
structure ReadsAs (kind : OtpKind) (query : UriQuery) (config : OtpConfig) (ignored : List UriWarning) (secret : SecretBytes)
    (stated : Stated) (pin : Option SecretBytes) : Prop where
  secret_eq : query.readSecret kind = .ok secret
  stated_eq : query.stated = .ok stated
  counter_ne : ¬ (kind.usesCounter = true ∧ stated.counter = none)
  pin_eq : query.read .pin (decodeField kind.pinEncoding) = .ok pin
  build_eq : (builderOf kind secret stated pin).build = .ok config
  ignored_eq : ignored = overridden kind stated (query.known .pin).isSome

theorem readConfig_eq_ok {kind : OtpKind} {query : UriQuery} {config : OtpConfig} {ignored : List UriWarning}
    (h : readConfig kind query = .ok (config, ignored)) : ∃ secret stated pin, ReadsAs kind query config ignored secret stated pin := by
  unfold readConfig at h
  obtain ⟨secret, hsecret, h⟩ := bind_eq_ok.mp h
  obtain ⟨stated, hstated, h⟩ := bind_eq_ok.mp h
  obtain ⟨hcounter, h⟩ := guard_eq_ok.mp h
  obtain ⟨pin, hpin, h⟩ := bind_eq_ok.mp h
  obtain ⟨built, hbuild, h⟩ := bind_eq_ok.mp h
  cases h
  exact ⟨secret, stated, pin, hsecret, hstated, hcounter, hpin, hbuild, rfl⟩

namespace OtpUri

variable {u : OtpUri}

/-- What a URI that is parsed was parsed from. -/
structure ParsesAs (input : Text) (u : OtpUri) (warnings : List UriWarning) (parts : UriParts) (labelIssuer : Option Text)
    (query : UriQuery) (ignored : List UriWarning) : Prop where
  short : input.utf8Len ≤ MAX_URI_LEN
  split_eq : splitUri input = .ok parts
  label_eq : decodeIssuer parts.labelIssuer = .ok labelIssuer
  account_eq : decode parts.account = .ok u.account
  query_eq : UriQuery.parse parts.query = .ok query
  config_eq : readConfig parts.kind query = .ok (u.config, ignored)
  issuer_eq : u.issuer = (mergeIssuer labelIssuer ((query.known .issuer).filter (fun issuer => issuer ≠ []))).1
  extra_eq : u.extra = query.extra
  canonical : u.toUri.utf8Len ≤ MAX_URI_LEN
  warnings_eq : warnings = (if parts.fragment then [.fragmentIgnored] else []) ++ ignored ++
    (mergeIssuer labelIssuer ((query.known .issuer).filter (fun issuer => issuer ≠ []))).2

theorem parse_eq_ok {input : Text} {warnings : List UriWarning} (h : parseWithWarnings input = .ok (u, warnings)) :
    ∃ parts labelIssuer query ignored, ParsesAs input u warnings parts labelIssuer query ignored := by
  unfold parseWithWarnings at h
  obtain ⟨hshort, h⟩ := guard_eq_ok.mp h
  obtain ⟨parts, hparts, h⟩ := bind_eq_ok.mp h
  obtain ⟨labelIssuer, hlabel, h⟩ := bind_eq_ok.mp h
  obtain ⟨account, haccount, h⟩ := bind_eq_ok.mp h
  obtain ⟨query, hquery, h⟩ := bind_eq_ok.mp h
  obtain ⟨⟨config, ignored⟩, hconfig, h⟩ := bind_eq_ok.mp h
  obtain ⟨hlen, h⟩ := guard_eq_ok.mp h
  cases h
  exact ⟨parts, labelIssuer, query, ignored, not_lt.mp hshort, mapError_eq_ok.mp hparts, mapError_eq_ok.mp hlabel,
    mapError_eq_ok.mp haccount, mapError_eq_ok.mp hquery, hconfig, rfl, rfl, not_lt.mp hlen, rfl⟩

/-- Of two issuers that are read as they stand, so is the one that is kept. -/
theorem mergeIssuer_keeps {label parameter : Option Text} {P : Text → Prop} (hlabel : ∀ i, label = some i → P i)
    (hparameter : ∀ i, parameter = some i → P i) : ∀ i, (mergeIssuer label parameter).1 = some i → P i := by
  intro i hi
  cases label with
  | none =>
    cases parameter with
    | none => cases hi
    | some p => exact Option.some.inj hi ▸ hparameter p rfl
  | some l =>
    cases parameter with
    | none => exact Option.some.inj hi ▸ hlabel l rfl
    | some p => exact Option.some.inj hi ▸ hparameter p rfl

theorem decodeIssuer_eq_ok {raw issuer : Option Text} (h : decodeIssuer raw = .ok issuer) :
    ∀ i, issuer = some i → i ≠ [] ∧ Clean i := by
  intro i hi
  cases raw with
  | none =>
    cases h
    cases hi
  | some raw =>
    unfold decodeIssuer at h
    dsimp only at h
    cases hdecode : decode raw with
    | error e =>
      rw [hdecode] at h
      cases h
    | ok text =>
      rw [hdecode] at h
      have hfilter : (some text).filter (fun issuer => issuer ≠ []) = some i := (Except.ok.inj h).trans hi
      obtain ⟨heq, hne⟩ := Option.filter_eq_some_iff.mp hfilter
      obtain rfl := Option.some.inj heq
      exact ⟨of_decide_eq_true hne, (decode_eq_ok.mp hdecode).2⟩

end OtpUri

end Misty
