import Misty.Lib.Exec
import Misty.Otp.Parse

/- What is parsed as an `otpauth://` URI is written so that it parses again to the same
   model: nothing that is written contains a separator, so every split falls where the
   writer put it, and every parameter is read back from its own slot.

   What is proved:
     1. `UriQuery.parse_written` — a query of distinct parameters is read into its slots.
     2. `OtpUri.parse_toUri` — a model that can be written is read back, without a warning.
     3. `OtpUri.Writable.of_parse` — whatever is parsed can be written.
     4. `otpauth_uri_round_trip` — so a parsed URI round trips, a Blizzard token as the
        TOTP token with the same codes. -/
namespace Misty

open Percent

/-! ## A query of distinct parameters -/

namespace UriQuery

/-- A name and a value that are written without a separator in them. -/
structure Joins (name value : Text) : Prop where
  name_ne : name ≠ []
  name_eq : '=' ∉ name
  name_amp : '&' ∉ name
  value_amp : '&' ∉ value

theorem step_written {parsed : UriQuery} {rawName rawValue name value : Text} (h : Joins rawName rawValue)
    (hname : decode rawName = .ok name) (hvalue : decode rawValue = .ok value) :
    step parsed (OtpUri.written rawName rawValue) = parsed.add name value := by
  have hsplit : splitOnce ['='] (OtpUri.written rawName rawValue) = some (rawName, rawValue) := splitOnce_char h.name_eq
  have hne : OtpUri.written rawName rawValue ≠ [] := List.append_ne_nil_of_right_ne_nil _ (List.cons_ne_nil _ _)
  unfold step
  rw [if_neg hne, hsplit]
  simp only [Option.getD_some, if_neg h.name_ne]
  rw [hname, hvalue]
  rfl

theorem decode_name : ∀ param : Param, decode param.name.toList = .ok param.name.toList := by
  intro param
  have hall : param.name.toList.all Char.isAlphanum = true := by cases param <;> decide
  exact decode_alphanum (List.all_eq_true.mp hall)

theorem add_known {parsed : UriQuery} {param : Param} (h : parsed.known param = none) (value : Text) :
    parsed.add param.name.toList value = .ok { parsed with known := Function.update parsed.known param (some value) } := by
  unfold add setOnce
  rw [Param.of_name]
  dsimp only
  rw [h, Option.isSome_none, if_neg Bool.false_ne_true]

/-- What a written value is read as. -/
def readBack (raw : Text) : Text := (decode raw).toOption.getD []

theorem readBack_of_ok {raw value : Text} (h : decode raw = .ok value) : readBack raw = value := by
  rw [readBack, h]
  rfl

/-- Distinct parameters fill their slots, whatever the order. -/
theorem foldlM_params : ∀ (list : List (Param × Text)) (parsed : UriQuery), (list.map Prod.fst).Nodup →
    (∀ entry ∈ list, parsed.known entry.1 = none ∧ Joins entry.1.name.toList entry.2 ∧ decode entry.2 = .ok (readBack entry.2)) →
    (list.map (fun entry => OtpUri.written entry.1.name.toList entry.2)).foldlM step parsed =
      .ok { parsed with known := fun param => ((list.lookup param).map readBack).or (parsed.known param) }
  | [], parsed, _, _ => by
    rw [List.map_nil, List.foldlM_nil]
    rfl
  | (param, raw) :: list, parsed, hnodup, h => by
    obtain ⟨hfree, hjoins, hdecode⟩ := h (param, raw) List.mem_cons_self
    obtain ⟨hparam, hnodup⟩ := List.nodup_cons.mp hnodup
    have hrest : ∀ entry ∈ list, Function.update parsed.known param (some (readBack raw)) entry.1 = none ∧
        Joins entry.1.name.toList entry.2 ∧ decode entry.2 = .ok (readBack entry.2) := by
      intro entry hentry
      have hne : entry.1 ≠ param := fun heq => hparam (List.mem_map.mpr ⟨entry, hentry, heq⟩)
      obtain ⟨hfree', hjoins', hdecode'⟩ := h entry (List.mem_cons_of_mem _ hentry)
      exact ⟨by rw [Function.update_of_ne hne, hfree'], hjoins', hdecode'⟩
    rw [List.map_cons, List.foldlM_cons, step_written hjoins (decode_name param) hdecode, add_known hfree]
    refine (foldlM_params list _ hnodup hrest).trans ?_
    refine congrArg (fun known => Except.ok { parsed with known := known }) (funext fun other => ?_)
    rw [List.lookup_cons]
    by_cases heq : other = param
    · subst heq
      have hlookup : list.lookup other = none := by
        rw [List.lookup_eq_none_iff]
        intro entry hentry
        rw [bne_iff_ne]
        exact fun heq => hparam (List.mem_map.mpr ⟨entry, hentry, heq.symm⟩)
      simp [hlookup]
    · simp only [Function.update_of_ne heq, beq_eq_false_iff_ne.mpr heq]

theorem foldlM_extra : ∀ {list : List (Text × Text)} {parsed : UriQuery},
    (∀ entry ∈ list, entry.1 ≠ [] ∧ Param.of entry.1 = none ∧ Clean entry.1 ∧ Clean entry.2) →
    (list.map (fun entry => OtpUri.written (encode entry.1) (encode entry.2))).foldlM step parsed =
      .ok { parsed with extra := parsed.extra ++ list }
  | [], parsed, _ => by
    rw [List.map_nil, List.foldlM_nil, List.append_nil]
    rfl
  | (name, value) :: list, parsed, h => by
    obtain ⟨hne, hof, hname, hvalue⟩ := h (name, value) List.mem_cons_self
    have hplain : ∀ {t : Text} {sep : Char}, isPlain sep = false → sep ∉ encode t :=
      fun hsep hmem => Bool.false_ne_true (hsep.symm.trans (isPlain_of_mem_encodeBytes hmem))
    have hbytes : Text.utf8 name ≠ [] := by
      intro hnil
      exact hne (Text.utf8_inj (hnil.trans (show [] = Text.utf8 [] from rfl)))
    have hjoins : Joins (encode name) (encode value) :=
      ⟨encodeBytes_ne_nil hbytes, hplain (by decide), hplain (by decide), hplain (by decide)⟩
    have hadd : parsed.add name value = .ok { parsed with extra := parsed.extra ++ [(name, value)] } := by
      unfold add
      rw [hof]
    rw [List.map_cons, List.foldlM_cons, step_written hjoins (decode_encode hname) (decode_encode hvalue), hadd]
    refine (foldlM_extra (fun entry hentry => h entry (List.mem_cons_of_mem _ hentry))).trans ?_
    rw [List.append_assoc, List.singleton_append]

/-- The query of distinct parameters and others is read into the slots and the rest. -/
theorem parse_written {list : List (Param × Text)} {extra : List (Text × Text)} {raw : Text} {param : Param}
    (hnodup : (((param, raw) :: list).map Prod.fst).Nodup)
    (h : ∀ entry ∈ (param, raw) :: list, Joins entry.1.name.toList entry.2 ∧ decode entry.2 = .ok (readBack entry.2))
    (hextra : ∀ entry ∈ extra, entry.1 ≠ [] ∧ Param.of entry.1 = none ∧ Clean entry.1 ∧ Clean entry.2) :
    parse (List.intercalate ['&'] (((param, raw) :: list).map (fun entry => OtpUri.written entry.1.name.toList entry.2) ++
        extra.map (fun entry => OtpUri.written (encode entry.1) (encode entry.2)))) =
      .ok { known := fun other => (((param, raw) :: list).lookup other).map readBack, extra := extra } := by
  have hwritten : ∀ {name value : Text}, Joins name value → '&' ∉ OtpUri.written name value := by
    intro name value hjoins hmem
    rcases List.mem_append.mp hmem with hmem | hmem
    · exact hjoins.name_amp hmem
    · rcases List.mem_cons.mp hmem with heq | hmem
      · exact absurd heq (by decide)
      · exact hjoins.value_amp hmem
  have hplain : ∀ t : Text, '&' ∉ encode t := fun t hmem =>
    Bool.false_ne_true ((show isPlain '&' = false by decide).symm.trans (isPlain_of_mem_encodeBytes hmem))
  have hpieces : ∀ p ∈ ((param, raw) :: list).map (fun entry => OtpUri.written entry.1.name.toList entry.2) ++
      extra.map (fun entry => OtpUri.written (encode entry.1) (encode entry.2)), '&' ∉ p := by
    intro p hp
    rcases List.mem_append.mp hp with hp | hp
    · obtain ⟨entry, hentry, rfl⟩ := List.mem_map.mp hp
      exact hwritten (h entry hentry).1
    · obtain ⟨entry, -, rfl⟩ := List.mem_map.mp hp
      intro hmem
      rcases List.mem_append.mp hmem with hmem | hmem
      · exact hplain entry.1 hmem
      · rcases List.mem_cons.mp hmem with heq | hmem
        · exact absurd heq (by decide)
        · exact hplain entry.2 hmem
  unfold parse
  rw [List.map_cons, List.cons_append] at hpieces ⊢
  have hparams := foldlM_params _ empty hnodup (fun entry hentry => ⟨rfl, h entry hentry⟩)
  rw [List.map_cons] at hparams
  rw [splitAll_intercalate hpieces, ← List.cons_append, List.foldlM_append, hparams]
  refine (foldlM_extra hextra).trans ?_
  have hslots : ∀ other, ((((param, raw) :: list).lookup other).map readBack).or (empty.known other) =
      (((param, raw) :: list).lookup other).map readBack := fun _ => Option.or_none
  simp only [hslots]
  rfl

end UriQuery

/-! ## Fields -/

/-- Bytes that are read back from what they are written as. -/
def Codable (encoding : SecretEncoding) (bytes : Bytes) : Prop :=
  match encoding with
  | .base32 => (Base32.encode bytes).utf8Len ≤ Base32.MAX_INPUT_CHARS
  | .hex => SecretBytes.checkLen ⟨bytes⟩ = .ok ()
  | .text => ∃ text : Text, text.utf8 = bytes ∧ Clean text

/-- A written value: plain, and read back. -/
structure SpelledAs (raw value : Text) : Prop where
  plain : ∀ ch ∈ raw, isPlain ch = true
  decode_eq : decode raw = .ok value

theorem SpelledAs.of_alphanum {text : Text} (h : ∀ ch ∈ text, ch.isAlphanum = true) : SpelledAs text text where
  plain := fun ch hch => by rw [isPlain, h ch hch, Bool.true_or]
  decode_eq := decode_alphanum h

theorem SpelledAs.of_clean {text : Text} (h : Clean text) : SpelledAs (encode text) text where
  plain := fun _ hch => isPlain_of_mem_encodeBytes hch
  decode_eq := decode_encode h

theorem isAlphanum_of_hex {ch : Char} (h : ch ∈ HEX_DIGITS) : ch.isAlphanum = true := by
  have hall : HEX_DIGITS.all Char.isAlphanum = true := by decide
  exact List.all_eq_true.mp hall ch h

theorem isAlphanum_of_mem_decimal {n : Nat} {ch : Char} (h : ch ∈ decimal n) : ch.isAlphanum = true := by
  rw [Char.isAlphanum, isDigit_of_mem_decimal h, Bool.or_true]

theorem readsBack_field {encoding : SecretEncoding} {bytes : Bytes} (h : Codable encoding bytes) :
    ∃ value, SpelledAs (encodeField encoding bytes) value ∧ decodeField encoding value = .ok ⟨bytes⟩ := by
  cases encoding with
  | base32 =>
    refine ⟨_, .of_alphanum (fun ch hch => Base32.isAlphanum_of_mem_encode hch), ?_⟩
    unfold decodeField
    dsimp only
    rw [encodeField, Base32.decode_encode h]
    rfl
  | hex =>
    refine ⟨_, .of_alphanum (fun ch hch => isAlphanum_of_hex (mem_hexEncode hch)), ?_⟩
    have hascii : ∀ ch ∈ hexEncode bytes, ch.toNat < 128 := by
      have hall : ∀ ch ∈ HEX_DIGITS, ch.toNat < 128 := by simp [HEX_DIGITS]
      exact fun ch hch => hall ch (mem_hexEncode hch)
    have hshort : ¬ MAX_SECRET_LEN * 2 < Text.utf8Len (hexEncode bytes) := by
      have hlen : bytes.length ≤ MAX_SECRET_LEN := by
        by_contra hlong
        have hcheck : SecretBytes.checkLen ⟨bytes⟩ = .ok () := h
        unfold SecretBytes.checkLen at hcheck
        split at hcheck
        · cases hcheck
        · rw [if_pos (not_le.mp hlong)] at hcheck
          cases hcheck
      rw [Text.utf8Len_ascii hascii, length_hexEncode]
      omega
    have hcheck : SecretBytes.checkLen ⟨bytes⟩ = .ok () := h
    unfold decodeField SecretBytes.fromHex
    dsimp only
    rw [encodeField, if_neg hshort, hexDecode_hexEncode]
    dsimp only
    rw [hcheck]
    rfl
  | text =>
    obtain ⟨text, rfl, hclean⟩ := h
    exact ⟨text, .of_clean hclean, rfl⟩

namespace OtpUri

/-- A model that can be written: its configuration is one that a program can hold, its texts are read as they stand, and
the URI is not too long. -/
structure Writable (u : OtpUri) : Prop where
  sound : u.config.Sound
  issuer : ∀ issuer, u.issuer = some issuer → issuer ≠ [] ∧ Clean issuer
  account : Clean u.account
  extra : ∀ entry ∈ u.extra, entry.1 ≠ [] ∧ Param.of entry.1 = none ∧ Clean entry.1 ∧ Clean entry.2
  pin : u.config.kind.pinEncoding = .text → ∀ pin, u.config.pin = some pin → ∃ text : Text, text.utf8 = pin.bytes ∧ Clean text
  length : u.toUri.utf8Len ≤ MAX_URI_LEN

variable {u : OtpUri}

theorem lookup_cons_eq (raw : Text) (list : List (Param × Text)) (p q : Param) :
    ((q, raw) :: list).lookup p = if p = q then some raw else list.lookup p := by
  rw [List.lookup_cons]
  by_cases h : p = q
  · simp [h]
  · rw [beq_eq_false_iff_ne.mpr h, if_neg h]

theorem lookup_toList {α : Type} (o : Option α) (f : α → Text) (p q : Param) :
    ((o.map (fun a => (q, f a))).toList).lookup p = if p = q then o.map f else none := by
  cases o with
  | none => simp
  | some a => by_cases h : p = q <;> simp [h, lookup_cons_eq]

theorem lookup_ite (c : Prop) [Decidable c] (raw : Text) (p q : Param) :
    (if c then [(q, raw)] else []).lookup p = if p = q ∧ c then some raw else none := by
  by_cases hc : c <;> by_cases h : p = q <;> simp [hc, h, lookup_cons_eq]

/-- Where each parameter of a canonical URI is found. -/
theorem lookup_params (u : OtpUri) (param : Param) : u.params.lookup param =
    match param with
    | .secret => some (encodeField u.config.kind.serializesAs.secretEncoding u.config.secret.bytes)
    | .issuer => u.issuer.map encode
    | .algorithm => if u.config.kind.serializesAs.fixedAlgorithm = none then some u.config.algorithm.asStr else none
    | .digits => if u.config.kind.serializesAs.fixedDigits = none then some (decimal u.config.digits.val) else none
    | .period => if u.config.kind.serializesAs.fixedPeriod = none then some (decimal u.config.period.val) else none
    | .counter => if u.config.kind.serializesAs.usesCounter then some (decimal u.config.counter.val) else none
    | .pin => u.config.pin.map (fun pin => encodeField u.config.kind.serializesAs.pinEncoding pin.bytes) := by
  unfold params
  cases param <;> simp [List.lookup_append, lookup_cons_eq, lookup_toList, lookup_ite]

theorem nodup_params (u : OtpUri) : (u.params.map Prod.fst).Nodup := by
  unfold params
  cases u.config.kind.serializesAs <;> cases u.issuer <;> cases u.config.pin <;>
    simp [OtpKind.fixedAlgorithm, OtpKind.fixedDigits, OtpKind.fixedPeriod, OtpKind.usesCounter]

theorem lookup_of_mem : ∀ {list : List (Param × Text)}, (list.map Prod.fst).Nodup → ∀ entry ∈ list,
    list.lookup entry.1 = some entry.2
  | [], _, _, h => absurd h List.not_mem_nil
  | (q, raw) :: list, hnodup, entry, h => by
    obtain ⟨hq, hnodup⟩ := List.nodup_cons.mp hnodup
    rw [lookup_cons_eq]
    rcases List.mem_cons.mp h with rfl | h
    · rw [if_pos rfl]
    · have hne : entry.1 ≠ q := fun heq => hq (List.mem_map.mpr ⟨entry, h, heq⟩)
      rw [if_neg hne, lookup_of_mem hnodup entry h]

theorem mem_of_lookup : ∀ {list : List (Param × Text)} {param : Param} {raw : Text}, list.lookup param = some raw →
    (param, raw) ∈ list
  | [], _, _, h => by cases h
  | (q, first) :: list, param, raw, h => by
    rw [lookup_cons_eq] at h
    split at h
    · next heq =>
      rw [heq, Option.some.inj h]
      exact List.mem_cons_self
    · exact List.mem_cons_of_mem _ (mem_of_lookup h)

/-! ## Lengths -/

theorem utf8Len_le_toUri {param : Param} {raw : Text} (h : u.params.lookup param = some raw) : raw.utf8Len ≤ u.toUri.utf8Len := by
  have hpiece : written param.name.toList raw ∈ u.params.map (fun entry => written entry.1.name.toList entry.2) ++
      u.extra.map (fun entry => written (encode entry.1) (encode entry.2)) :=
    List.mem_append_left _ (List.mem_map.mpr ⟨(param, raw), mem_of_lookup h, rfl⟩)
  obtain ⟨front, hfront⟩ : ∃ front, u.toUri = front ++ List.intercalate ['&'] (u.params.map (fun entry => written entry.1.name.toList
      entry.2) ++ u.extra.map (fun entry => written (encode entry.1) (encode entry.2))) := by
    unfold toUri
    generalize "otpauth://".toList = scheme
    refine ⟨scheme ++ (u.config.kind.serializesAs.uriType ++ '/' :: (u.label ++ ['?'])), ?_⟩
    simp only [List.append_assoc, List.cons_append, List.nil_append]
  rw [hfront, utf8Len_append]
  have hvalue : raw.utf8Len ≤ Text.utf8Len (written param.name.toList raw) := by
    have hcons : Text.utf8Len ('=' :: raw) = 1 + raw.utf8Len := rfl
    rw [written, utf8Len_append, hcons]
    exact le_trans (Nat.le_add_left _ 1) (Nat.le_add_left _ _)
  exact le_trans (le_trans hvalue (utf8Len_le_intercalate hpiece)) (Nat.le_add_left _ _)

/-! ## Reading what was written -/

theorem Writable.codable_secret (h : u.Writable) (hself : u.config.kind.serializesAs = u.config.kind) :
    Codable u.config.kind.secretEncoding u.config.secret.bytes := by
  have hlookup := lookup_params u .secret
  rw [hself] at hlookup
  have hlen := le_trans (utf8Len_le_toUri hlookup) h.length
  cases hencoding : u.config.kind.secretEncoding with
  | base32 =>
    rw [hencoding] at hlen
    exact hlen
  | hex => exact h.sound.secret
  | text => cases hkind : u.config.kind <;> rw [hkind] at hencoding <;> cases hencoding

theorem Writable.codable_pin (h : u.Writable) (hself : u.config.kind.serializesAs = u.config.kind) {pin : SecretBytes}
    (hpin : u.config.pin = some pin) : Codable u.config.kind.pinEncoding pin.bytes := by
  have hlookup : u.params.lookup .pin = some (encodeField u.config.kind.pinEncoding pin.bytes) := by
    rw [lookup_params u .pin, hself, hpin]
    rfl
  have hlen := le_trans (utf8Len_le_toUri hlookup) h.length
  cases hencoding : u.config.kind.pinEncoding with
  | base32 =>
    rw [hencoding] at hlen
    exact hlen
  | hex => cases hkind : u.config.kind <;> rw [hkind] at hencoding <;> cases hencoding
  | text => exact h.pin hencoding pin hpin

theorem Writable.readsBack (h : u.Writable) (hself : u.config.kind.serializesAs = u.config.kind) {param : Param} {raw : Text}
    (hlookup : u.params.lookup param = some raw) : ∃ value, SpelledAs raw value := by
  have hite : ∀ {c : Prop} [Decidable c] {text : Text}, (∀ ch ∈ text, ch.isAlphanum = true) →
      (if c then some text else none) = some raw → ∃ value, SpelledAs raw value := by
    intro c _ text htext hif
    split at hif
    · cases hif
      exact ⟨_, .of_alphanum htext⟩
    · cases hif
  rw [lookup_params] at hlookup
  cases param with
  | secret =>
    cases hlookup
    rw [hself]
    obtain ⟨value, hread, -⟩ := readsBack_field (h.codable_secret hself)
    exact ⟨value, hread⟩
  | issuer =>
    obtain ⟨issuer, hissuer, rfl⟩ := Option.map_eq_some_iff.mp hlookup
    exact ⟨issuer, .of_clean (h.issuer issuer hissuer).2⟩
  | algorithm =>
    refine hite ?_ hlookup
    have hall : u.config.algorithm.asStr.all Char.isAlphanum = true := by cases u.config.algorithm <;> decide
    exact List.all_eq_true.mp hall
  | digits => exact hite (fun ch hch => isAlphanum_of_mem_decimal hch) hlookup
  | period => exact hite (fun ch hch => isAlphanum_of_mem_decimal hch) hlookup
  | counter => exact hite (fun ch hch => isAlphanum_of_mem_decimal hch) hlookup
  | pin =>
    obtain ⟨pin, hpin, rfl⟩ := Option.map_eq_some_iff.mp hlookup
    rw [hself]
    obtain ⟨value, hread, -⟩ := readsBack_field (h.codable_pin hself hpin)
    exact ⟨value, hread⟩

/-- The query of a canonical URI. -/
def canonicalQuery (u : OtpUri) : Text :=
  List.intercalate ['&'] (u.params.map (fun entry => written entry.1.name.toList entry.2) ++
    u.extra.map (fun entry => written (encode entry.1) (encode entry.2)))

theorem mem_params_cons (u : OtpUri) : ∃ raw list, u.params = (.secret, raw) :: list := ⟨_, _, rfl⟩

/-- A canonical query is read into the slots of its parameters. -/
theorem parse_canonicalQuery (h : u.Writable) (hself : u.config.kind.serializesAs = u.config.kind) :
    UriQuery.parse u.canonicalQuery =
      .ok { known := fun param => (u.params.lookup param).map UriQuery.readBack, extra := u.extra } := by
  have hnodup := nodup_params u
  have hentry : ∀ entry ∈ u.params, UriQuery.Joins entry.1.name.toList entry.2 ∧
      decode entry.2 = .ok (UriQuery.readBack entry.2) := by
    intro entry hmem
    obtain ⟨value, hread⟩ := h.readsBack hself (lookup_of_mem hnodup entry hmem)
    have hname : ∀ (param : Param), param.name.toList ≠ [] ∧ '=' ∉ param.name.toList ∧ '&' ∉ param.name.toList := by
      intro param
      cases param <;> decide
    obtain ⟨hne, heq, hamp⟩ := hname entry.1
    refine ⟨⟨hne, heq, hamp, fun hmem => ?_⟩, by rw [hread.decode_eq, UriQuery.readBack_of_ok hread.decode_eq]⟩
    exact Bool.false_ne_true ((show isPlain '&' = false by decide).symm.trans (hread.plain _ hmem))
  obtain ⟨raw, list, hparams⟩ := mem_params_cons u
  unfold canonicalQuery
  rw [hparams] at hnodup hentry ⊢
  exact UriQuery.parse_written hnodup hentry h.extra

/-- No character of a canonical URI separates anything but what the writer separated. -/
theorem not_mem_canonicalQuery (h : u.Writable) (hself : u.config.kind.serializesAs = u.config.kind) {ch : Char}
    (hplain : isPlain ch = false) (hamp : ch ≠ '&') (heq : ch ≠ '=') : ch ∉ u.canonicalQuery := by
  have hencode : ∀ t : Text, ch ∉ encode t := fun t hmem =>
    Bool.false_ne_true (hplain.symm.trans (isPlain_of_mem_encodeBytes hmem))
  have hwritten : ∀ {name value : Text}, ch ∉ name → ch ∉ value → ch ∉ written name value := by
    intro name value hname hvalue hmem
    rcases List.mem_append.mp hmem with hmem | hmem
    · exact hname hmem
    · rcases List.mem_cons.mp hmem with hmem | hmem
      · exact heq hmem
      · exact hvalue hmem
  intro hmem
  rcases mem_intercalate hmem with hsep | ⟨piece, hpiece, hmem⟩
  · exact hamp hsep
  · rcases List.mem_append.mp hpiece with hpiece | hpiece
    · obtain ⟨entry, hentry, rfl⟩ := List.mem_map.mp hpiece
      obtain ⟨value, hread⟩ := h.readsBack hself (lookup_of_mem (nodup_params u) entry hentry)
      refine hwritten (fun hname => ?_) (fun hvalue => ?_) hmem
      · have hletters : entry.1.name.toList.all isPlain = true := by cases entry.1 <;> decide
        exact Bool.false_ne_true (hplain.symm.trans (List.all_eq_true.mp hletters ch hname))
      · exact Bool.false_ne_true (hplain.symm.trans (hread.plain ch hvalue))
    · obtain ⟨entry, -, rfl⟩ := List.mem_map.mp hpiece
      exact hwritten (hencode entry.1) (hencode entry.2) hmem

/-- A canonical URI comes apart where it was put together. -/
theorem splitUri_toUri (h : u.Writable) (hself : u.config.kind.serializesAs = u.config.kind) :
    splitUri u.toUri = .ok ⟨false, u.config.kind, u.issuer.map encode, encode u.account, u.canonicalQuery⟩ := by
  -- no part holds a separator: the encoded ones are plain, and the type is letters
  have hencode : ∀ {ch : Char} {t : Text}, isPlain ch = false → ch ∉ encode t := fun hplain hmem =>
    Bool.false_ne_true (hplain.symm.trans (isPlain_of_mem_encodeBytes hmem))
  have htype : ∀ {ch : Char}, isPlain ch = false → ch ∉ u.config.kind.uriType := by
    intro ch hplain hmem
    have hletters : u.config.kind.uriType.all isPlain = true := by cases u.config.kind <;> decide
    exact Bool.false_ne_true (hplain.symm.trans (List.all_eq_true.mp hletters ch hmem))
  have hlabel : ∀ {ch : Char}, isPlain ch = false → ch ≠ ':' → ch ∉ u.label := by
    intro ch hplain hne hmem
    unfold label at hmem
    rcases List.mem_append.mp hmem with hmem | hmem
    · cases hissuer : u.issuer with
      | none =>
        rw [hissuer] at hmem
        exact List.not_mem_nil hmem
      | some issuer =>
        rw [hissuer] at hmem
        rcases List.mem_append.mp hmem with hmem | hmem
        · exact hencode hplain hmem
        · exact hne (List.mem_singleton.mp hmem)
    · exact hencode hplain hmem
  have hpath : ∀ {ch : Char}, isPlain ch = false → ch ≠ ':' → ch ≠ '/' → ch ∉ u.config.kind.uriType ++ '/' :: u.label := by
    intro ch hplain hcolon hslash hmem
    rcases List.mem_append.mp hmem with hmem | hmem
    · exact htype hplain hmem
    · rcases List.mem_cons.mp hmem with hmem | hmem
      · exact hslash hmem
      · exact hlabel hplain hcolon hmem
  -- so each split falls where the parts were joined
  have hwhole : u.toUri = "otpauth".toList ++ ("://".toList ++
      (u.config.kind.uriType ++ '/' :: u.label ++ '?' :: u.canonicalQuery)) := by
    have hscheme : "otpauth://".toList = "otpauth".toList ++ "://".toList := by decide
    unfold toUri canonicalQuery
    rw [hself, hscheme]
    generalize "otpauth".toList = scheme
    generalize "://".toList = colon
    simp only [List.append_assoc, List.cons_append]
  have hstrip : stripScheme u.toUri = .ok (u.config.kind.uriType ++ '/' :: u.label ++ '?' :: u.canonicalQuery) := by
    have hcolon : ':' ∉ "otpauth".toList := by decide
    have hsplit : splitOnce "://".toList u.toUri =
        some ("otpauth".toList, u.config.kind.uriType ++ '/' :: u.label ++ '?' :: u.canonicalQuery) := by
      rw [hwhole]
      exact splitOnce_of_head hcolon
    unfold stripScheme
    rw [hsplit]
    rfl
  have hfragment : splitOnce ['#'] (u.config.kind.uriType ++ '/' :: u.label ++ '?' :: u.canonicalQuery) = none := by
    apply splitOnce_none
    intro hmem
    rcases List.mem_append.mp hmem with hmem | hmem
    · exact hpath (by decide) (by decide) (by decide) hmem
    · rcases List.mem_cons.mp hmem with hmem | hmem
      · exact absurd hmem (by decide)
      · exact not_mem_canonicalQuery h hself (by decide) (by decide) (by decide) hmem
  have hquestion : splitOnce ['?'] (u.config.kind.uriType ++ '/' :: u.label ++ '?' :: u.canonicalQuery) =
      some (u.config.kind.uriType ++ '/' :: u.label, u.canonicalQuery) :=
    splitOnce_char (hpath (by decide) (by decide) (by decide))
  have hslash : splitOnce ['/'] (u.config.kind.uriType ++ '/' :: u.label) = some (u.config.kind.uriType, u.label) :=
    splitOnce_char (htype (by decide))
  unfold splitUri
  rw [bind_of_ok hstrip, hfragment]
  dsimp only
  rw [hquestion, Option.getD_some]
  dsimp only
  rw [hslash, Option.getD_some]
  dsimp only
  rw [OtpKind.fromUriType_uriType]
  dsimp only
  -- the label splits at its colon when there is an issuer, and has no colon when there is none
  unfold label
  cases hissuer : u.issuer with
  | none =>
    rw [List.nil_append, splitOnce_none (hencode (by decide))]
    rfl
  | some issuer =>
    rw [List.append_assoc, List.singleton_append, splitOnce_char (hencode (by decide))]
    rfl

theorem read_slot {α : Type} {query : UriQuery} {param : Param} {f : Text → Except OtpError α} {c : Prop} [Decidable c] {raw : Text}
    {value : α} (hknown : query.known param = (if c then some raw else none).map UriQuery.readBack)
    (hback : UriQuery.readBack raw = raw) (hf : f raw = .ok value) :
    query.read param f = .ok (if c then some value else none) := by
  unfold UriQuery.read
  rw [hknown]
  by_cases hc : c
  · rw [if_pos hc, if_pos hc, Option.map_some, hback]
    show (f raw).map some = _
    rw [hf]
    rfl
  · rw [if_neg hc, if_neg hc]
    rfl

/-- What is stated only where nothing is fixed differs from nothing. -/
theorem differs_unfixed {α : Type} [DecidableEq α] (fixed : Option α) (value : α) :
    differs (if fixed = none then some value else none) fixed = false := by
  cases fixed with
  | none => rfl
  | some a => rfl

/-- Of a sound configuration the value that is stated, or else fixed, is its own. -/
theorem getD_unfixed {α : Type} [DecidableEq α] {fixed : Option α} {value : α} (h : ∀ a, fixed = some a → value = a) (default : α) :
    fixed.getD ((if fixed = none then some value else none).getD default) = value := by
  cases hfixed : fixed with
  | none => rfl
  | some a => exact (h a hfixed).symm

/-- The parameters are read as the configuration they were written from, and nothing of them is overridden. -/
theorem readConfig_canonical (h : u.Writable) (hself : u.config.kind.serializesAs = u.config.kind) {query : UriQuery}
    (hknown : ∀ param, query.known param = (u.params.lookup param).map UriQuery.readBack) :
    readConfig u.config.kind query = .ok (u.config, []) := by
  have hs := h.sound
  have hback : ∀ {text : Text}, (∀ ch ∈ text, ch.isAlphanum = true) → UriQuery.readBack text = text :=
    fun htext => UriQuery.readBack_of_ok (decode_alphanum htext)
  have hdecimal : ∀ n : Nat, UriQuery.readBack (decimal n) = decimal n :=
    fun n => hback (fun ch hch => isAlphanum_of_mem_decimal hch)
  -- each parameter is read back, one after another
  have hsecret : query.readSecret u.config.kind = .ok u.config.secret := by
    obtain ⟨value, hread, hfield⟩ := readsBack_field (h.codable_secret hself)
    have hslot : query.known .secret = some value := by
      rw [hknown, lookup_params, hself, Option.map_some, UriQuery.readBack_of_ok hread.decode_eq]
    unfold UriQuery.readSecret
    rw [hslot]
    exact hfield
  have hpin : query.read .pin (decodeField u.config.kind.pinEncoding) = .ok u.config.pin := by
    unfold UriQuery.read
    rw [hknown, lookup_params, hself]
    cases hpin : u.config.pin with
    | none => rfl
    | some pin =>
      obtain ⟨value, hread, hfield⟩ := readsBack_field (h.codable_pin hself hpin)
      rw [Option.map_some, Option.map_some, UriQuery.readBack_of_ok hread.decode_eq]
      show (decodeField u.config.kind.pinEncoding value).map some = _
      rw [hfield]
      rfl
  have hparse : ∀ (n : U64) (name : String), parseU64 (decimal n.val) name = .ok n := by
    intro n name
    rw [parseU64, parseDecimal_decimal]
  have hslot : ∀ param, query.known param = (u.params.lookup param).map UriQuery.readBack := hknown
  simp only [lookup_params, hself] at hslot
  have halgorithm : query.read .algorithm HashAlg.fromStr =
      .ok (if u.config.kind.fixedAlgorithm = none then some u.config.algorithm else none) := by
    have hall : u.config.algorithm.asStr.all Char.isAlphanum = true := by cases u.config.algorithm <;> decide
    exact read_slot (hslot .algorithm) (hback (List.all_eq_true.mp hall)) (HashAlg.fromStr_asStr _)
  have hdigits : query.read .digits readDigits =
      .ok (if u.config.kind.fixedDigits = none then some u.config.digits else none) := by
    refine read_slot (hslot .digits) (hdecimal _) ?_
    unfold readDigits
    rw [bind_of_ok (hparse ⟨u.config.digits.val, lt_trans u.config.digits.isLt (by decide)⟩ "digits"), dif_pos u.config.digits.isLt]
    rfl
  have hperiod : query.read .period readPeriod =
      .ok (if u.config.kind.fixedPeriod = none then some u.config.period else none) := by
    refine read_slot (hslot .period) (hdecimal _) ?_
    unfold readPeriod
    rw [bind_of_ok (hparse ⟨u.config.period.val, lt_trans u.config.period.isLt (by decide)⟩ "period"), dif_pos u.config.period.isLt]
    rfl
  have hcounter : query.read .counter (fun raw => parseU64 raw "counter") =
      .ok (if u.config.kind.usesCounter then some u.config.counter else none) :=
    read_slot (hslot .counter) (hdecimal _) (hparse _ _)
  have hstated : query.stated = .ok {
      algorithm := if u.config.kind.fixedAlgorithm = none then some u.config.algorithm else none
      digits := if u.config.kind.fixedDigits = none then some u.config.digits else none
      period := if u.config.kind.fixedPeriod = none then some u.config.period else none
      counter := if u.config.kind.usesCounter then some u.config.counter else none } := by
    unfold UriQuery.stated
    rw [bind_of_ok halgorithm, bind_of_ok hdigits, bind_of_ok hperiod, bind_of_ok hcounter]
    rfl
  -- what the kind fixes was not written, and the builder fills it in again
  have hbuild : (builderOf u.config.kind u.config.secret {
      algorithm := if u.config.kind.fixedAlgorithm = none then some u.config.algorithm else none
      digits := if u.config.kind.fixedDigits = none then some u.config.digits else none
      period := if u.config.kind.fixedPeriod = none then some u.config.period else none
      counter := if u.config.kind.usesCounter then some u.config.counter else none } u.config.pin).build = .ok u.config := by
    refine OtpConfig.build_eq_ok.mpr ⟨⟨hs.secret, ?_, ?_⟩, ?_⟩
    · intro d hd
      have hd : (if u.config.kind.fixedDigits = none then some u.config.digits else none) = some d := hd
      split at hd
      · exact Option.some.inj hd ▸ hs.digits
      · cases hd
    · intro p hp
      have hp : (if u.config.kind.fixedPeriod = none then some u.config.period else none) = some p := hp
      split at hp
      · exact Option.some.inj hp ▸ hs.period
      · cases hp
    · have hcount : (if u.config.kind.usesCounter then
          (if u.config.kind.usesCounter then some u.config.counter else none).getD 0 else 0) = u.config.counter := by
        cases huses : u.config.kind.usesCounter with
        | true => rfl
        | false => exact (hs.counter huses).symm
      unfold OtpConfig.ofBuilder builderOf
      dsimp only
      rw [getD_unfixed hs.fixedAlgorithm, getD_unfixed hs.fixedDigits, getD_unfixed hs.fixedPeriod, hcount, hs.pin]
  -- nothing was written that the kind fixes or does not use
  have hoverridden : overridden u.config.kind {
      algorithm := if u.config.kind.fixedAlgorithm = none then some u.config.algorithm else none
      digits := if u.config.kind.fixedDigits = none then some u.config.digits else none
      period := if u.config.kind.fixedPeriod = none then some u.config.period else none
      counter := if u.config.kind.usesCounter then some u.config.counter else none } (query.known .pin).isSome = [] := by
    have hcount : ((if u.config.kind.usesCounter then some u.config.counter else none).isSome && !u.config.kind.usesCounter) = false := by
      cases u.config.kind.usesCounter <;> rfl
    have hpins : ((query.known .pin).isSome && !u.config.kind.usesPin) = false := by
      have hkept := hs.pin
      rw [hslot .pin]
      dsimp only
      rw [Option.isSome_map, Option.isSome_map]
      unfold OtpKind.keptPin at hkept
      cases huses : u.config.kind.usesPin with
      | true => rw [Bool.not_true, Bool.and_false]
      | false =>
        rw [huses, if_neg Bool.false_ne_true] at hkept
        rw [← hkept]
        rfl
    unfold overridden
    simp only [differs_unfixed, hcount, hpins, List.filter_cons, Bool.false_eq_true, if_false, List.filter_nil, List.map_nil]
  unfold readConfig
  rw [bind_of_ok hsecret, bind_of_ok hstated]
  refine guard_eq_ok.mpr ⟨?_, ?_⟩
  · intro hmissing
    have hnone : (if u.config.kind.usesCounter then some u.config.counter else none) = none := hmissing.2
    rw [if_pos hmissing.1] at hnone
    cases hnone
  · rw [bind_of_ok hpin, bind_of_ok hbuild, hoverridden]
    rfl

/-- A model that can be written, and has a type of its own, is read back without a warning. -/
theorem parse_toUri_self (h : u.Writable) (hself : u.config.kind.serializesAs = u.config.kind) :
    parseWithWarnings u.toUri = .ok (u, []) := by
  have hlift : ∀ {α : Type} {x : Except UriError α} {a : α}, x = .ok a → lift x = .ok a := by
    intro α x a hx
    rw [hx]
    rfl
  have hissuer : decodeIssuer (u.issuer.map encode) = .ok u.issuer := by
    cases hissuer : u.issuer with
    | none => rfl
    | some issuer =>
      obtain ⟨hne, hclean⟩ := h.issuer issuer hissuer
      unfold decodeIssuer
      rw [Option.map_some]
      show (decode (encode issuer)).map _ = _
      rw [decode_encode hclean]
      show Except.ok (Option.filter _ (some issuer)) = _
      rw [Option.filter_some, if_pos (decide_eq_true hne)]
  have hslot : (Option.map UriQuery.readBack (u.params.lookup .issuer)).filter (fun issuer => issuer ≠ []) = u.issuer := by
    rw [lookup_params]
    dsimp only
    cases hissuer : u.issuer with
    | none => rfl
    | some issuer =>
      obtain ⟨hne, hclean⟩ := h.issuer issuer hissuer
      rw [Option.map_some, Option.map_some, UriQuery.readBack_of_ok (decode_encode hclean), Option.filter_some,
        if_pos (decide_eq_true hne)]
  have hmerge : mergeIssuer u.issuer u.issuer = (u.issuer, []) := by
    cases u.issuer with
    | none => rfl
    | some issuer =>
      unfold mergeIssuer
      dsimp only
      rw [if_neg (not_not.mpr rfl)]
  unfold parseWithWarnings
  refine guard_eq_ok.mpr ⟨not_lt.mpr h.length, ?_⟩
  rw [bind_of_ok (hlift (splitUri_toUri h hself)), bind_of_ok (hlift hissuer), bind_of_ok (hlift (decode_encode h.account)),
    bind_of_ok (hlift (parse_canonicalQuery h hself)), bind_of_ok (readConfig_canonical h hself (fun _ => rfl))]
  dsimp only
  rw [hslot, hmerge]
  exact guard_eq_ok.mpr ⟨not_lt.mpr h.length, rfl⟩

end OtpUri

/-! ## What is parsed -/

namespace OtpUri

variable {u : OtpUri}

/-- Whatever is parsed can be written. -/
theorem Writable.of_parse {input : Text} {warnings : List UriWarning} (h : parseWithWarnings input = .ok (u, warnings)) :
    u.Writable := by
  obtain ⟨parts, labelIssuer, query, ignored, hp⟩ := parse_eq_ok h
  obtain ⟨secret, stated, pin, hr⟩ := readConfig_eq_ok hp.config_eq
  have hsane := UriQuery.sane_of_parse hp.query_eq
  have hconfig := (OtpConfig.build_eq_ok.mp hr.build_eq).2
  refine {
    sound := OtpConfig.sound_of_build hr.build_eq
    issuer := fun i hi => ?_
    account := (decode_eq_ok.mp hp.account_eq).2
    extra := by rw [hp.extra_eq]; exact hsane.extra
    pin := fun htext p hpin => ?_
    length := hp.canonical }
  · rw [hp.issuer_eq] at hi
    refine mergeIssuer_keeps (decodeIssuer_eq_ok hp.label_eq) (fun parameter hparameter => ?_) i hi
    obtain ⟨heq, hne⟩ := Option.filter_eq_some_iff.mp hparameter
    exact ⟨of_decide_eq_true hne, hsane.known .issuer parameter heq⟩
  · have hkind : u.config.kind = parts.kind := by rw [hconfig]; rfl
    have hkept : parts.kind.keptPin pin = some p := by rw [← hpin, hconfig]; rfl
    have hgiven : pin = some p := by
      unfold OtpKind.keptPin at hkept
      split at hkept
      · exact (Option.filter_eq_some_iff.mp hkept).1
      · cases hkept
    rw [hkind] at htext
    have hread := hr.pin_eq
    rw [htext, hgiven] at hread
    unfold UriQuery.read at hread
    split at hread
    · next raw hraw => exact ⟨raw, congrArg SecretBytes.bytes (Option.some.inj (Except.ok.inj hread)), hsane.known .pin raw hraw⟩
    · cases hread

/-! ## The round trip -/

theorem kind_of_serializesAs {kind : OtpKind} (h : kind.serializesAs ≠ kind) : kind = .blizzard := by
  cases kind <;> first | rfl | exact absurd rfl h

/-- A model and the one it is exported as are written alike. -/
theorem toUri_exportForm (hs : u.config.Sound) : u.exportForm.toUri = u.toUri := by
  unfold exportForm
  split
  · rfl
  · next hself =>
    have hkind := kind_of_serializesAs hself
    have hpin : u.config.pin = none := by
      have hkept := hs.pin
      rw [hkind] at hkept
      exact hkept.symm
    have hparams : params { u with config := u.config.withKind .totp } = u.params := by
      unfold params
      simp only [OtpConfig.withKind, hkind, hpin, OtpKind.serializesAs, OtpKind.fixedAlgorithm, OtpKind.fixedDigits,
        OtpKind.fixedPeriod, OtpKind.usesPin, Option.getD_none, Option.map_none]
      rfl
    have hshape : u.config.kind.serializesAs = .totp := by rw [hkind]; rfl
    rw [hshape]
    unfold toUri
    rw [hparams, hshape]
    rfl

theorem serializesAs_exportForm (u : OtpUri) : u.exportForm.config.kind.serializesAs = u.exportForm.config.kind := by
  unfold exportForm
  split
  · next hself => exact hself
  · show u.config.kind.serializesAs.serializesAs = u.config.kind.serializesAs
    cases u.config.kind <;> rfl

theorem Writable.exportForm (h : u.Writable) : u.exportForm.Writable := by
  have huri := toUri_exportForm h.sound
  by_cases hself : u.config.kind.serializesAs = u.config.kind
  · have hsame : u.exportForm = u := if_pos hself
    rw [hsame]
    exact h
  · have hform : u.exportForm = { u with config := u.config.withKind u.config.kind.serializesAs } := if_neg hself
    rw [hform] at huri ⊢
    exact {
      sound := h.sound.withKind _
      issuer := h.issuer
      account := h.account
      extra := h.extra
      pin := fun _ pin hpin => by
        have hnone : (u.config.withKind u.config.kind.serializesAs).pin = none := by
          rw [kind_of_serializesAs hself]
          rfl
        rw [hnone] at hpin
        cases hpin
      length := by rw [huri]; exact h.length }

/-- A model that can be written is read back as the one it is exported as, without a warning. -/
theorem parse_toUri (h : u.Writable) : parseWithWarnings u.toUri = .ok (u.exportForm, []) := by
  rw [← toUri_exportForm h.sound]
  exact parse_toUri_self h.exportForm (serializesAs_exportForm u)

/-- A Battle.net token and the TOTP token it is exported as show the same code at every instant. -/
theorem generateAt_exportForm (prims : OtpPrims) (hkind : u.config.kind = .blizzard) (unixMs : U64) :
    u.exportForm.config.generateAt prims unixMs = u.config.generateAt prims unixMs := by
  have hform : u.exportForm.config = u.config.withKind .totp := by
    unfold exportForm
    rw [if_neg (by rw [hkind]; decide), hkind]
    rfl
  rw [hform]
  unfold OtpConfig.generateAt OtpConfig.valueAt
  rw [hkind]
  rfl

end OtpUri

/-- Whatever is parsed is written so that it parses to the same model without a warning, and so on from there; a Battle.net
token to the TOTP token that shows the same codes in the same windows. -/
theorem otpauth_uri_round_trip (prims : OtpPrims) {input : Text} {u : OtpUri} (h : OtpUri.parse input = .ok u) :
    OtpUri.parseWithWarnings u.toUri = .ok (u.exportForm, []) ∧ u.exportForm.toUri = u.toUri ∧
    (u.config.kind ≠ .blizzard → u.exportForm = u) ∧
    (u.config.kind = .blizzard → ∀ unixMs, u.exportForm.config.generateAt prims unixMs = u.config.generateAt prims unixMs) := by
  unfold OtpUri.parse at h
  cases hparse : OtpUri.parseWithWarnings input with
  | error e =>
    rw [hparse] at h
    cases h
  | ok found =>
    obtain ⟨parsed, warnings⟩ := found
    rw [hparse] at h
    cases h
    have hw := OtpUri.Writable.of_parse hparse
    refine ⟨OtpUri.parse_toUri hw, OtpUri.toUri_exportForm hw.sound, fun hkind => if_pos ?_,
      fun hkind => OtpUri.generateAt_exportForm prims hkind⟩
    by_contra hself
    exact hkind (OtpUri.kind_of_serializesAs hself)

/-- A Battle.net token with a colon in its issuer. -/
theorem otpauth_uri_round_trip_sample : ∃ u : OtpUri,
    OtpUri.parse "otpauth://blizzard/Battle%3anet:ada?secret=JBSWY3DP&colour=red".toList = .ok u ∧
      OtpUri.parseWithWarnings u.toUri = .ok (u.exportForm, []) := by
  have hparsed : (OtpUri.parse "otpauth://blizzard/Battle%3anet:ada?secret=JBSWY3DP&colour=red".toList).toOption.any
      (fun _ => true) = true := by
    decide +kernel
  obtain ⟨u, hu, -⟩ := exists_of_toOption_any hparsed
  exact ⟨u, hu, (otpauth_uri_round_trip OtpPrims.sample hu).1⟩

end Misty
