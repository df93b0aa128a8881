import Misty.Crypto.Words
import Misty.Lib.EditDistance

/- Repairs of a mistyped kit: one word put in the place of another so that the checksum
   holds again.

   What is proved:
     1. `editDistance_eq` — the two rows that are swapped hold the distances of all
        prefixes, so what comes out is the Levenshtein distance.
     2. `word_repairs_exact` — what is suggested is exactly the words of the list near
        the typed one with which the kit is read.

   Correspondence (Rust ↔ Lean):
     `words::edit_distance`, its two loops     ↔ `editDistance`, `editRows`, `editRow`
     `words::nearest_words`                    ↔ `nearestWords`
     `WordRepair`, `suggest_word_repairs`      ↔ `WordRepair`, `suggestWordRepairs`
   A distance is a `Nat`: it never exceeds the longer of two lengths, so the saturating
   sums of the source are sums. -/
namespace Misty

open EditDistance

/-- `usize::MAX`. -/
def USIZE_MAX : Nat := 2 ^ 64 - 1

/-! ## The distance -/

/-- The loop over the columns. -/
def editRow (previous : List Nat) (leftChar : Char) : Text → Nat → List Nat → List Nat
  | [], _, current => current
  | rightChar :: rest, column, current =>
    let deletion := previous[column + 1]?.getD USIZE_MAX
    let insertion := current[column]?.getD USIZE_MAX
    let substitution := previous[column]?.getD USIZE_MAX
    let cost := if leftChar ≠ rightChar then 1 else 0
    let best := min (min (deletion + 1) (insertion + 1)) (substitution + cost)
    editRow previous leftChar rest (column + 1) (current.set (column + 1) best)

/-- The loop over the rows: the two of them change places after each. -/
def editRows (right : Text) : Text → Nat → List Nat → List Nat → List Nat
  | [], _, previous, _ => previous
  | leftChar :: rest, row, previous, current =>
    editRows right rest (row + 1) (editRow previous leftChar right 0 (current.set 0 (row + 1))) previous

def editDistance (left right : Text) : Nat :=
  let previous := List.range (right.length + 1)
  let current := List.replicate (right.length + 1) 0
  (editRows right left 0 previous current).getLast?.getD USIZE_MAX

/-- The distances from a text to the prefixes of another. -/
def prefixDistances (left right : Text) : List Nat :=
  (List.range (right.length + 1)).map (fun j => levenshtein left (right.take j))

section Distance

variable {left right : Text} {leftChar : Char}

theorem getElem?_prefixDistances {j : Nat} (h : j ≤ right.length) :
    (prefixDistances left right)[j]? = some (levenshtein left (right.take j)) := by
  rw [prefixDistances, List.getElem?_map, List.getElem?_range (Nat.lt_succ_of_le h), Option.map_some]

theorem eq_prefixDistances {row : List Nat} (hlen : row.length = right.length + 1)
    (h : ∀ j ≤ right.length, row[j]? = some (levenshtein left (right.take j))) : row = prefixDistances left right := by
  apply List.ext_getElem?
  intro j
  rcases Nat.lt_or_ge right.length j with hj | hj
  · rw [List.getElem?_eq_none (by omega), List.getElem?_eq_none (by rw [prefixDistances, List.length_map, List.length_range]; omega)]
  · rw [h j hj, getElem?_prefixDistances hj]

/-- The columns done so far hold the distances of the next row. -/
theorem editRow_spec : ∀ (rest done : Text) (current : List Nat), right = done ++ rest → current.length = right.length + 1 →
    (∀ j ≤ done.length, current[j]? = some (levenshtein (left ++ [leftChar]) (right.take j))) →
      editRow (prefixDistances left right) leftChar rest done.length current = prefixDistances (left ++ [leftChar]) right
  | [], done, current, hright, hlen, h => by
    rw [List.append_nil] at hright
    subst hright
    exact eq_prefixDistances hlen h
  | rightChar :: rest, done, current, hright, hlen, h => by
    have hcount : right.length = done.length + (rest.length + 1) := by rw [hright, List.length_append, List.length_cons]
    have htake : right.take done.length = done := by rw [hright, List.take_left]
    have hnext : right.take (done.length + 1) = done ++ [rightChar] := by
      have hfront : right = done ++ [rightChar] ++ rest := by rw [hright, List.append_assoc, List.singleton_append]
      rw [hfront, List.take_left' (by rw [List.length_append, List.length_singleton])]
    have hdeletion : (prefixDistances left right)[done.length + 1]? = _ := getElem?_prefixDistances (by omega)
    have hsubstitution : (prefixDistances left right)[done.length]? = _ := getElem?_prefixDistances (by omega)
    have hinsertion := h done.length le_rfl
    rw [hnext] at hdeletion
    rw [htake] at hsubstitution hinsertion
    have hcell : levenshtein (left ++ [leftChar]) (right.take (done.length + 1)) =
        min (min (levenshtein left (done ++ [rightChar]) + 1) (levenshtein (left ++ [leftChar]) done + 1))
          (levenshtein left done + if leftChar ≠ rightChar then 1 else 0) := by
      rw [hnext, levenshtein_concat]
      by_cases heq : leftChar = rightChar <;> simp [heq]
    rw [editRow, hdeletion, hsubstitution, hinsertion]
    simp only [Option.getD_some]
    rw [← hcell]
    have hdone := editRow_spec rest (done ++ [rightChar])
      (current.set (done.length + 1) (levenshtein (left ++ [leftChar]) (right.take (done.length + 1))))
      (by rw [hright, List.append_assoc, List.singleton_append]) (by rw [List.length_set, hlen])
    rw [List.length_append, List.length_singleton] at hdone
    apply hdone
    intro j hj
    rcases Nat.lt_or_ge done.length j with hlt | hle
    · obtain rfl : j = done.length + 1 := by omega
      rw [List.getElem?_set_self (by omega)]
    · rw [List.getElem?_set_ne (by omega), h j hle]

/-- Each row holds the distances of one more character of the left text. -/
theorem editRows_spec (right : Text) : ∀ (rest done : Text) (current : List Nat), current.length = right.length + 1 →
    editRows right rest done.length (prefixDistances done right) current = prefixDistances (done ++ rest) right
  | [], done, current, _ => by rw [editRows, List.append_nil]
  | leftChar :: rest, done, current, hlen => by
    have hrow : editRow (prefixDistances done right) leftChar right 0 (current.set 0 (done.length + 1)) =
        prefixDistances (done ++ [leftChar]) right := by
      apply editRow_spec right [] (current.set 0 (done.length + 1)) rfl (by rw [List.length_set, hlen, List.nil_append])
      intro j hj
      obtain rfl : j = 0 := Nat.le_zero.mp hj
      rw [List.getElem?_set_self (by rw [hlen]; omega), List.take_zero, levenshtein_nil_right, List.length_append, List.length_singleton]
    have hrest := editRows_spec right rest (done ++ [leftChar]) (prefixDistances done right)
      (by rw [prefixDistances, List.length_map, List.length_range])
    rw [editRows, hrow]
    rw [List.length_append, List.length_singleton, List.append_assoc, List.singleton_append] at hrest
    exact hrest

theorem editDistance_eq (left right : Text) : editDistance left right = levenshtein left right := by
  have hstart : List.range (right.length + 1) = prefixDistances [] right := by
    apply eq_prefixDistances (List.length_range)
    intro j hj
    rw [List.getElem?_range (Nat.lt_succ_of_le hj), levenshtein, List.length_take, Nat.min_eq_left hj]
  have hrows := editRows_spec right left [] (List.replicate (right.length + 1) 0) List.length_replicate
  rw [List.length_nil, List.nil_append, ← hstart] at hrows
  have hlast : (prefixDistances left right).getLast? = some (levenshtein left right) := by
    rw [prefixDistances, List.range_succ, List.map_append, List.map_singleton, List.getLast?_concat, List.take_length]
  unfold editDistance
  dsimp only
  rw [hrows, hlast, Option.getD_some]

end Distance

/-! ## Repairs -/

structure WordRepair where
  index : Nat
  candidate : Text
  deriving DecidableEq

section Wordlist

variable (words : List Text) (sha256 : Bytes → ByteArr 32)

/-- `nearest_words`, nearest first. -/
def nearestWords (word : Text) (maxDistance : Nat) : List Text :=
  let scored := words.filterMap (fun candidate =>
    let distance := editDistance (normalised word) candidate
    if distance ≤ maxDistance then some (distance, candidate) else none)
  (scored.mergeSort (fun a b => a.1 < b.1 || (a.1 = b.1 && a.2 ≤ b.2))).map Prod.snd

/-- `u16::try_from(index).unwrap_or(0)`. -/
def indexSlot (index : Nat) : Nat := if index < 2 ^ 16 then index else 0

/-- The positions of words that are not in the list. -/
def unknownPositions (resolved : List (Option Nat)) : List Nat :=
  resolved.zipIdx.filterMap (fun entry => if entry.1.isNone then some entry.2 else none)

/-- An unknown word leaves the index 0 in its place. -/
def baseIndices (resolved : List (Option Nat)) : List Nat := resolved.map (fun index => indexSlot (index.getD 0))

/-- The body of the loop over the positions. -/
def repairsAt (typed : List Text) (resolved : List (Option Nat)) (position : Nat) : List WordRepair :=
  match typed[position]? with
  | none => []
  | some original =>
    let known := (resolved[position]?.join).isSome
    let maxDistance := if known then 1 else 2
    (nearestWords words original maxDistance).filterMap (fun candidate =>
      if candidate = original then none
      else match indexOf words candidate with
        | none => none
        | some candidateIndex =>
          let attempt := (baseIndices resolved).set position (indexSlot candidateIndex)
          if (fromIndices sha256 attempt).isOk then some ⟨position, candidate⟩ else none)

def suggestWordRepairs (typedWords : List Text) : List WordRepair :=
  if typedWords.length ≠ RECOVERY_WORD_COUNT then []
  else
    let typed := typedWords.map normalised
    let resolved := typed.map (indexOf words)
    let unknown := unknownPositions resolved
    if 1 < unknown.length then []
    else if unknown = [] ∧ (fromIndices sha256 (baseIndices resolved)).isOk then []
    else
      let positions := if unknown = [] then List.range RECOVERY_WORD_COUNT else unknown
      positions.flatMap (repairsAt words sha256 typed resolved)

end Wordlist

variable {words : List Text} {sha256 : Bytes → ByteArr 32} {typed : List Text} {indices : List Nat}

/-! ## Candidates -/

theorem normalised_normalised (word : Text) : normalised (normalised word) = normalised word := by
  rw [normalised, normalised, trim_map isWhitespace_toAsciiLowercase, trim_trim, List.map_map]
  exact List.map_congr_left (fun ch _ => toAsciiLowercase_idem ch)

theorem indexOf_normalised (word : Text) : indexOf words (normalised word) = indexOf words word := by
  rw [indexOf, normalised_normalised, indexOf]

theorem indexOf_eq_none (hwords : Wordlist words) {word : Text} : indexOf words word = none ↔ normalised word ∉ words := by
  constructor
  · intro h hmem
    obtain ⟨index, hindex⟩ := List.getElem?_of_mem hmem
    rw [(indexOf_eq hwords).mpr hindex] at h
    cases h
  · intro h
    cases hindex : indexOf words word with
    | none => rfl
    | some index => exact absurd (List.mem_of_getElem? ((indexOf_eq hwords).mp hindex)) h

theorem mem_nearestWords {word candidate : Text} {maxDistance : Nat} : candidate ∈ nearestWords words word maxDistance ↔
    candidate ∈ words ∧ levenshtein (normalised word) candidate ≤ maxDistance := by
  simp only [nearestWords, List.mem_map, List.mem_mergeSort, List.mem_filterMap, editDistance_eq]
  constructor
  · rintro ⟨⟨distance, word⟩, ⟨entry, hentry, hif⟩, rfl⟩
    split at hif
    · next hle =>
      cases hif
      exact ⟨hentry, hle⟩
    · cases hif
  · intro h
    exact ⟨_, ⟨candidate, h.1, if_pos h.2⟩, rfl⟩

/-! ## Unknown words -/

/-- The word at a position is not in the list. -/
def UnknownAt (words typed : List Text) (position : Nat) : Prop :=
  ∃ word, typed[position]? = some word ∧ normalised word ∉ words

theorem getElem?_resolved (position : Nat) :
    ((typed.map normalised).map (indexOf words))[position]? = typed[position]?.map (indexOf words) := by
  rw [List.getElem?_map, List.getElem?_map, Option.map_map]
  congr 1
  funext word
  exact indexOf_normalised word

theorem mem_unknownPositions (hwords : Wordlist words) (typed : List Text) (position : Nat) :
    position ∈ unknownPositions ((typed.map normalised).map (indexOf words)) ↔ UnknownAt words typed position := by
  have hentry : position ∈ unknownPositions ((typed.map normalised).map (indexOf words)) ↔
      ((typed.map normalised).map (indexOf words))[position]? = some none := by
    simp only [unknownPositions, List.mem_filterMap, Prod.exists, List.mk_mem_zipIdx_iff_getElem?]
    constructor
    · rintro ⟨index, place, hget, hif⟩
      split at hif
      · next hnone =>
        cases hif
        rwa [Option.isNone_iff_eq_none.mp hnone] at hget
      · cases hif
    · intro h
      exact ⟨none, position, h, rfl⟩
  rw [hentry, getElem?_resolved, Option.map_eq_some_iff]
  simp only [indexOf_eq_none hwords, UnknownAt]

theorem nodup_unknownPositions (resolved : List (Option Nat)) : (unknownPositions resolved).Nodup := by
  have hplaces : resolved.zipIdx.Pairwise (fun a b => a.2 ≠ b.2) := by
    have hnodup : (resolved.zipIdx.map Prod.snd).Nodup := by
      rw [List.zipIdx_map_snd]
      exact List.nodup_range' _
    exact List.pairwise_map.mp hnodup
  refine hplaces.filterMap _ ?_
  intro a b hne i hi j hj
  have hplace : ∀ (entry : Option Nat × Nat) (k : Nat), (if entry.1.isNone then some entry.2 else none) = some k → entry.2 = k := by
    intro entry k h
    split at h
    · exact Option.some.inj h
    · cases h
  rw [← hplace a i hi, ← hplace b j hj]
  exact hne

/-- With at most one place left open, a kit is read as its indices. -/
theorem fromWords_resolved (hwords : Wordlist words) (hcount : typed.length = RECOVERY_WORD_COUNT)
    (hresolved : typed.map (indexOf words) = indices.map some) :
    fromWords words sha256 typed = fromIndices sha256 indices := by
  have hread : resolveWords words typed 0 = .ok indices := (resolveWords_eq_ok hwords).mpr hresolved
  unfold fromWords
  simp only [hcount, ne_eq, not_true_eq_false, if_false, hread]
  rfl

theorem indexSlot_of_indexOf (hwords : Wordlist words) {word : Text} {index : Nat} (h : indexOf words word = some index) :
    indexSlot index = index := if_pos (lt_trans (index_lt hwords h) (by decide))

theorem getElem?_baseIndices (hwords : Wordlist words) {position : Nat} (h : ¬ UnknownAt words typed position) :
    ((baseIndices ((typed.map normalised).map (indexOf words))).map some)[position]? =
      (typed.map (indexOf words))[position]? := by
  rw [List.getElem?_map, baseIndices, List.getElem?_map, getElem?_resolved, List.getElem?_map, Option.map_map, Option.map_map]
  cases hword : typed[position]? with
  | none => rfl
  | some word =>
    have hknown : normalised word ∈ words := by
      by_contra hunknown
      exact h ⟨word, hword, hunknown⟩
    cases hindex : indexOf words word with
    | none => exact absurd hknown ((indexOf_eq_none hwords).mp hindex)
    | some index => simp only [Option.map_some, Function.comp_apply, hindex, Option.getD_some, indexSlot_of_indexOf hwords hindex]

theorem length_baseIndices (resolved : List (Option Nat)) : (baseIndices resolved).length = resolved.length :=
  List.length_map _

theorem resolved_set (hwords : Wordlist words) {position index : Nat} {candidate : Text}
    (hunknown : ∀ j, UnknownAt words typed j → j = position) (hindex : indexOf words candidate = some index) :
    (typed.set position candidate).map (indexOf words) =
      ((baseIndices ((typed.map normalised).map (indexOf words))).set position (indexSlot index)).map some := by
  rw [List.map_set, List.map_set, hindex, indexSlot_of_indexOf hwords hindex]
  apply List.ext_getElem?
  intro j
  by_cases hj : position = j
  · subst hj
    rw [List.getElem?_set_self', List.getElem?_set_self']
    have hlen : (typed.map (indexOf words)).length =
        ((baseIndices ((typed.map normalised).map (indexOf words))).map some).length := by
      rw [List.length_map, List.length_map, length_baseIndices, List.length_map, List.length_map]
    rcases Nat.lt_or_ge position (typed.map (indexOf words)).length with hlt | hge
    · rw [List.getElem?_eq_getElem hlt, List.getElem?_eq_getElem (hlen ▸ hlt)]
      rfl
    · rw [List.getElem?_eq_none hge, List.getElem?_eq_none (hlen ▸ hge)]
  · rw [List.getElem?_set_ne hj, List.getElem?_set_ne hj,
      getElem?_baseIndices hwords (fun h => hj (hunknown j h).symm)]

theorem resolved_base (hwords : Wordlist words) (hknown : ∀ j, ¬ UnknownAt words typed j) :
    typed.map (indexOf words) = (baseIndices ((typed.map normalised).map (indexOf words))).map some := by
  apply List.ext_getElem?
  intro j
  rw [getElem?_baseIndices hwords (hknown j)]

theorem isOk_iff {ε α : Type} {x : Except ε α} : x.isOk = true ↔ ∃ a, x = .ok a := by
  cases x with
  | ok a => exact ⟨fun _ => ⟨a, rfl⟩, fun _ => rfl⟩
  | error e => exact ⟨fun h => absurd h Bool.false_ne_true, fun h => nomatch h⟩

theorem known_of_fromWords (hwords : Wordlist words) {key : RecoveryKey} (h : fromWords words sha256 typed = .ok key) (j : Nat) :
    ¬ UnknownAt words typed j := by
  intro hunknown
  obtain ⟨word, hword, hnot⟩ := hunknown
  unfold fromWords at h
  obtain ⟨-, h⟩ := guard_eq_ok.mp h
  obtain ⟨indices, hread, -⟩ := bind_eq_ok.mp h
  have hplaces := congrArg (·[j]?) ((resolveWords_eq_ok hwords).mp hread)
  simp only [List.getElem?_map, hword, Option.map_some, (indexOf_eq_none hwords).mpr hnot] at hplaces
  cases hget : indices[j]? with
  | none => simp [hget] at hplaces
  | some index => simp [hget] at hplaces

/-! ## What is suggested -/

theorem mem_repairsAt (hwords : Wordlist words) {position j : Nat} {candidate : Text} :
    (⟨j, candidate⟩ : WordRepair) ∈
        repairsAt words sha256 (typed.map normalised) ((typed.map normalised).map (indexOf words)) position ↔
      j = position ∧ candidate ∈ words ∧
        (∃ word, typed[position]? = some word ∧ candidate ≠ normalised word ∧
          levenshtein (normalised word) candidate ≤ if normalised word ∈ words then 1 else 2) ∧
        ∃ index, indexOf words candidate = some index ∧ (fromIndices sha256
          ((baseIndices ((typed.map normalised).map (indexOf words))).set position (indexSlot index))).isOk = true := by
  unfold repairsAt
  rw [List.getElem?_map, getElem?_resolved]
  cases hword : typed[position]? with
  | none => simp
  | some word =>
    -- a word of the list may be off by one letter, any other by two
    have hdistance : (if (Option.map (indexOf words) (some word)).join.isSome then 1 else 2) =
        if normalised word ∈ words then 1 else 2 := by
      cases hindex : indexOf words word with
      | none => simp [hindex, (indexOf_eq_none hwords).mp hindex]
      | some index =>
        have hknown : normalised word ∈ words := List.mem_of_getElem? ((indexOf_eq hwords).mp hindex)
        simp [hindex, hknown]
    simp only [Option.map_some, List.mem_filterMap, mem_nearestWords, normalised_normalised] at hdistance ⊢
    rw [hdistance]
    constructor
    · intro h
      obtain ⟨found, ⟨hmem, hnear⟩, hif⟩ := h
      split at hif
      · cases hif
      · next hne =>
        split at hif
        · cases hif
        · next index hindex =>
          split at hif
          · next hok =>
            cases hif
            exact ⟨rfl, hmem, ⟨word, rfl, hne, hnear⟩, index, hindex, hok⟩
          · cases hif
    · intro h
      obtain ⟨rfl, hmem, ⟨found, hfound, hne, hnear⟩, index, hindex, hok⟩ := h
      cases hfound
      refine ⟨candidate, ⟨hmem, hnear⟩, ?_⟩
      rw [if_neg hne, hindex]
      exact if_pos hok

/-- An attempt at a place succeeds when the kit with the candidate there is read. -/
theorem attempt_iff (hwords : Wordlist words) {position : Nat} {candidate : Text} (hcount : typed.length = RECOVERY_WORD_COUNT)
    (hunknown : ∀ j, UnknownAt words typed j → j = position) (hmem : candidate ∈ words) :
    (∃ index, indexOf words candidate = some index ∧ (fromIndices sha256
        ((baseIndices ((typed.map normalised).map (indexOf words))).set position (indexSlot index))).isOk = true) ↔
      ∃ key, fromWords words sha256 (typed.set position candidate) = .ok key := by
  have hsome : ∃ index, indexOf words candidate = some index := by
    cases hindex : indexOf words candidate with
    | none => exact absurd ((normalised_word hwords hmem).symm ▸ hmem) ((indexOf_eq_none hwords).mp hindex)
    | some index => exact ⟨index, rfl⟩
  obtain ⟨index, hindex⟩ := hsome
  rw [fromWords_resolved hwords (by rw [List.length_set, hcount]) (resolved_set hwords hunknown hindex), ← isOk_iff]
  constructor
  · intro h
    obtain ⟨found, hfound, hok⟩ := h
    rw [hindex, Option.some.injEq] at hfound
    exact hfound ▸ hok
  · exact fun hok => ⟨index, hindex, hok⟩

theorem nodup_nearestWords (hwords : Wordlist words) (word : Text) (maxDistance : Nat) :
    (nearestWords words word maxDistance).Nodup := by
  unfold nearestWords
  refine ((List.mergeSort_perm _ _).map Prod.snd).nodup_iff.mpr ?_
  rw [List.map_filterMap]
  refine hwords.distinct.filterMap ?_
  intro a b c ha hb
  have hsame : ∀ {x : Text}, c ∈ Option.map Prod.snd (if editDistance (normalised word) x ≤ maxDistance
      then some (editDistance (normalised word) x, x) else none) → x = c := by
    intro x hx
    split at hx
    · exact Option.some.inj hx
    · cases hx
  rw [hsame ha, hsame hb]

theorem nodup_repairsAt (hwords : Wordlist words) (normalisedWords : List Text) (resolved : List (Option Nat)) (position : Nat) :
    (repairsAt words sha256 normalisedWords resolved position).Nodup := by
  unfold repairsAt
  split
  · exact List.nodup_nil
  · next original _ =>
    refine (nodup_nearestWords hwords original _).filterMap ?_
    intro a b repair ha hb
    have hcandidate : ∀ {x : Text}, repair ∈ (if x = original then none else match indexOf words x with
        | none => none
        | some candidateIndex =>
          if (fromIndices sha256 ((baseIndices resolved).set position (indexSlot candidateIndex))).isOk
          then some (⟨position, x⟩ : WordRepair) else none) → x = repair.candidate := by
      intro x hx
      split at hx
      · cases hx
      · split at hx
        · cases hx
        · split at hx
          · cases hx
            rfl
          · cases hx
    rw [hcandidate ha, hcandidate hb]

theorem nodup_suggestions (hwords : Wordlist words) (typed : List Text) : (suggestWordRepairs words sha256 typed).Nodup := by
  have hflat : ∀ positions : List Nat, positions.Nodup → (positions.flatMap (repairsAt words sha256 (typed.map normalised)
      ((typed.map normalised).map (indexOf words)))).Nodup := by
    intro positions hpositions
    refine List.nodup_flatMap.mpr ⟨fun position _ => nodup_repairsAt hwords _ _ position, ?_⟩
    refine hpositions.imp ?_
    intro a b hne repair ha hb
    exact hne (((mem_repairsAt hwords).mp ha).1.symm.trans ((mem_repairsAt hwords).mp hb).1)
  unfold suggestWordRepairs
  dsimp only
  split
  · exact List.nodup_nil
  · split
    · exact List.nodup_nil
    · split
      · exact List.nodup_nil
      · split
        · exact hflat _ List.nodup_range
        · exact hflat _ (nodup_unknownPositions _)

/-- The distance is the Levenshtein distance, and what is suggested, each once, is exactly the words of the list near the
typed one with which a kit of 24 words that is not read is read, in the one unknown place if there is one. -/
theorem word_repairs_exact (hwords : Wordlist words) (typed : List Text) :
    (∀ left right, editDistance left right = levenshtein left right) ∧
    (suggestWordRepairs words sha256 typed).Nodup ∧
    ∀ position candidate, (⟨position, candidate⟩ : WordRepair) ∈ suggestWordRepairs words sha256 typed ↔
      typed.length = RECOVERY_WORD_COUNT ∧ (∀ key, fromWords words sha256 typed ≠ .ok key) ∧
      (∀ j, UnknownAt words typed j → j = position) ∧ candidate ∈ words ∧
      (∃ word, typed[position]? = some word ∧ candidate ≠ normalised word ∧
        levenshtein (normalised word) candidate ≤ if normalised word ∈ words then 1 else 2) ∧
      ∃ key, fromWords words sha256 (typed.set position candidate) = .ok key := by
  refine ⟨editDistance_eq, nodup_suggestions hwords typed, fun position candidate => ?_⟩
  unfold suggestWordRepairs
  by_cases hcount : typed.length = RECOVERY_WORD_COUNT
  · rw [if_neg (not_not.mpr hcount)]
    dsimp only
    have hplace := mem_unknownPositions hwords typed
    have hnodup := nodup_unknownPositions ((typed.map normalised).map (indexOf words))
    cases hpositions : unknownPositions ((typed.map normalised).map (indexOf words)) with
    | nil =>
      -- Every word is known, so every place is tried.
      rw [hpositions] at hplace
      have hknown : ∀ j, ¬ UnknownAt words typed j := fun j h => List.not_mem_nil ((hplace j).mpr h)
      have hunknown : ∀ j, UnknownAt words typed j → j = position := fun j hj => absurd hj (hknown j)
      have hbase : fromWords words sha256 typed = fromIndices sha256 _ :=
        fromWords_resolved hwords hcount (resolved_base hwords hknown)
      rw [if_neg (by simp), hbase]
      by_cases hok : (fromIndices sha256 (baseIndices ((typed.map normalised).map (indexOf words)))).isOk = true
      · obtain ⟨key, hkey⟩ := isOk_iff.mp hok
        rw [if_pos ⟨rfl, hok⟩]
        exact ⟨fun h => absurd h List.not_mem_nil, fun h => absurd hkey (h.2.1 key)⟩
      · rw [if_neg (fun h => hok h.2), if_pos rfl, List.mem_flatMap]
        constructor
        · intro h
          obtain ⟨p, -, h⟩ := h
          obtain ⟨rfl, hmem, hnear, hread⟩ := (mem_repairsAt hwords).mp h
          exact ⟨hcount, fun key hkey => hok (isOk_iff.mpr ⟨key, hkey⟩), hunknown, hmem, hnear,
            (attempt_iff hwords hcount hunknown hmem).mp hread⟩
        · intro h
          obtain ⟨-, -, -, hmem, hnear, hread⟩ := h
          obtain ⟨word, hword, -⟩ := id hnear
          have hlt : position < RECOVERY_WORD_COUNT := hcount ▸ (List.getElem?_eq_some_iff.mp hword).1
          exact ⟨position, List.mem_range.mpr hlt, (mem_repairsAt hwords).mpr ⟨rfl, hmem, hnear,
            (attempt_iff hwords hcount hunknown hmem).mpr hread⟩⟩
    | cons p rest =>
      rw [hpositions] at hplace hnodup
      have hopen : UnknownAt words typed p := (hplace p).mp List.mem_cons_self
      have hunread : ∀ key, fromWords words sha256 typed ≠ .ok key := fun key h => known_of_fromWords hwords h p hopen
      cases rest with
      | nil =>
        have honly : ∀ j, UnknownAt words typed j → j = p := fun j hj => List.mem_singleton.mp ((hplace j).mpr hj)
        rw [if_neg (by simp), if_neg (fun h => List.cons_ne_nil p [] h.1), if_neg (List.cons_ne_nil p []), List.flatMap_singleton,
          mem_repairsAt hwords]
        constructor
        · intro h
          obtain ⟨rfl, hmem, hnear, hread⟩ := h
          exact ⟨hcount, hunread, honly, hmem, hnear, (attempt_iff hwords hcount honly hmem).mp hread⟩
        · intro h
          obtain ⟨-, -, hunknown, hmem, hnear, hread⟩ := h
          obtain rfl := hunknown p hopen
          exact ⟨rfl, hmem, hnear, (attempt_iff hwords hcount hunknown hmem).mpr hread⟩
      | cons q rest =>
        -- Two unknown places are not one position.
        rw [if_pos (by simp)]
        refine ⟨fun h => absurd h List.not_mem_nil, fun h => ?_⟩
        have hq := h.2.2.1 q ((hplace q).mp (List.mem_cons_of_mem p List.mem_cons_self))
        have hp := h.2.2.1 p hopen
        exact absurd (hp.trans hq.symm) (List.ne_of_not_mem_cons (List.nodup_cons.mp hnodup).1)
  · rw [if_pos hcount]
    exact ⟨fun h => absurd h List.not_mem_nil, fun h => absurd h.1 hcount⟩

/-- A kit of 24 times the first word, with a letter too many in one of them. -/
theorem word_repairs_exact_sample :
    (⟨0, ['a', 'a', 'a']⟩ : WordRepair) ∈ suggestWordRepairs Wordlist.sample (fun _ => ByteArr.repeated 32 0)
      (['a', 'a', 'a', 'a'] :: List.replicate 23 ['a', 'a', 'a']) := by
  have hlength : ∀ word ∈ Wordlist.sample, word.length = 3 := by
    intro word hword
    obtain ⟨i, -, rfl⟩ := List.mem_map.mp hword
    rfl
  have hfirst : ['a', 'a', 'a'] ∈ Wordlist.sample :=
    List.mem_map.mpr ⟨0, List.mem_range.mpr (by decide), by decide⟩
  have hunknown : UnknownAt Wordlist.sample (['a', 'a', 'a', 'a'] :: List.replicate 23 ['a', 'a', 'a']) 0 :=
    ⟨_, rfl, fun hmem => absurd (hlength _ hmem) (by decide)⟩
  refine ((word_repairs_exact Wordlist.sample_lawful _).2.2 0 _).mpr ⟨rfl, ?_, ?_, hfirst, ?_, ByteArr.repeated 32 0, ?_⟩
  · intro key hread
    exact known_of_fromWords Wordlist.sample_lawful hread 0 hunknown
  · intro j hj
    obtain ⟨word, hword, hnot⟩ := hj
    cases j with
    | zero => rfl
    | succ j =>
      have hmem : word ∈ List.replicate 23 ['a', 'a', 'a'] := List.mem_of_getElem? hword
      rw [List.eq_of_mem_replicate hmem, normalised_word Wordlist.sample_lawful hfirst] at hnot
      exact absurd hfirst hnot
  · refine ⟨_, rfl, by decide, ?_⟩
    rw [← editDistance_eq]
    decide +kernel
  · rw [fromWords_eq_ok Wordlist.sample_lawful]
    decide +kernel

end Misty
