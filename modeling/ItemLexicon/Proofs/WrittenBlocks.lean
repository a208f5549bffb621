import ItemLexicon.Proofs.AgreedBlocks
import ItemLexicon.Tag.Printer

namespace ItemLexicon.Numeral

theorem ofNat_ne_zero_cons (n : Nat) (c : Char) (s : List Char) : ofNat n ≠ '0' :: c :: s := by
  induction n using Nat.strongRecOn generalizing c s with
  | ind n ih =>
    rw [ofNat, Nat.toDigits_eq_if (by decide)]
    split
    · simp
    · rename_i large
      intro same
      have value := Tag.digitsValue_ofNat (n / 10)
      have front := ih (n / 10) (by omega)
      rw [ofNat] at value front
      cases digits : Nat.toDigits 10 (n / 10) with
      | nil => exact Nat.toDigits_ne_nil digits
      | cons d t =>
        rw [digits] at same value front
        obtain ⟨rfl, -⟩ := List.cons.inj same
        cases t with
        | nil =>
          have zero : Tag.digitsValue ['0'] = 0 := rfl
          omega
        | cons e t => exact front e t rfl

end ItemLexicon.Numeral

namespace ItemLexicon.Tag

open Json (Document NumberText Spells Piece IsDigits)
open Json.Document

def escape (q : Char) (s : List Char) : List Char :=
  s.flatMap fun c => if c = '\\' ∨ c = q then ['\\', c] else [c]

inductive BlockKey : List Char → List Char → Prop
  | bare {k : List Char} (ne : k ≠ []) (h : ∀ c ∈ k, Cursor.isBareKey c = true) : BlockKey k k
  | quoted {q : Char} {k : List Char} (hq : isQuote q = true) (ne : k ≠ []) :
      BlockKey k (q :: escape q k ++ [q])

/-- A word that neither reader takes for anything but text. -/
structure IsTextWord (w : List Char) : Prop where
  ne_nil : w ≠ []
  bare : ∀ c ∈ w, Cursor.isBareValue c = true
  relaxed : ofBare w = .text (String.ofList w)
  strict : ofJson? w = none

inductive BlockLeaf : Tag → List Char → Prop
  | null : BlockLeaf .null ['n', 'u', 'l', 'l']
  | trueWord : BlockLeaf (.bool true) ['t', 'r', 'u', 'e']
  | falseWord : BlockLeaf (.bool false) ['f', 'a', 'l', 's', 'e']
  | int {n : Int} (least : -(2 ^ 63) ≤ n) (greatest : n < 2 ^ 63) : BlockLeaf (.int n) (intText n)
  | suffixed {n : Int} {c : Char} (least : -(2 ^ 63) ≤ n) (greatest : n < 2 ^ 63)
      (hc : isSuffix c = true) : BlockLeaf (.int n) (intText n ++ [c])
  | quoted {q : Char} (hq : isQuote q = true) (s : List Char) :
      BlockLeaf (.text (String.ofList s)) (q :: escape q s ++ [q])
  | bare {w : List Char} (h : IsTextWord w) : BlockLeaf (.text (String.ofList w)) w

def Spelling.block : Spelling := ⟨BlockKey, BlockLeaf⟩

theorem quotes_escape {q : Char} (hq : isQuote q = true) (s : List Char) :
    Quotes q s (escape q s) := by
  induction s with
  | nil => exact .nil
  | cons c s ih =>
    rw [escape, List.flatMap_cons, ← escape]
    split
    · rename_i special
      have same : unescape c = c := by
        rcases special with rfl | rfl
        · rfl
        · rcases isQuote_cases hq with rfl | rfl <;> rfl
      have quotes := Quotes.escaped c ih
      rwa [same] at quotes
    · rename_i plain
      obtain ⟨hb, hq⟩ := not_or.mp plain
      exact .char hq hb ih

theorem assemble?_map_char (s : List Char) : Piece.assemble? (s.map .char) = some s := by
  induction s with
  | nil => rfl
  | cons c s ih =>
    rw [List.map_cons, Piece.assemble?, ih]
    rfl

theorem exists_of_textReading_escaped {c : Char} (special : c = '\\' ∨ c = '"')
    {s rest : List Char} {ps : List Piece} (h : TextReading ('\\' :: c :: s) ps rest) :
    ∃ ps', ps = .char c :: ps' ∧ TextReading s ps' rest := by
  cases h with
  | unit => rcases special with h | h <;> cases h
  | escaped known more => rcases special with rfl | rfl <;> cases known <;> exact ⟨_, rfl, more⟩
  | char _ hb => exact absurd rfl hb

theorem exists_of_textReading_char {c : Char} (plain : ¬(c = '\\' ∨ c = '"'))
    {s rest : List Char} {ps : List Piece} (h : TextReading (c :: s) ps rest) :
    ∃ ps', ps = .char c :: ps' ∧ TextReading s ps' rest := by
  obtain ⟨hb, hq⟩ := not_or.mp plain
  cases h with
  | quote => exact absurd rfl hq
  | unit => exact absurd rfl hb
  | escaped => exact absurd rfl hb
  | char _ _ _ more => exact ⟨_, rfl, more⟩

theorem pieces_of_escape {s rest rest' : List Char} {ps : List Piece}
    (h : TextReading (escape '"' s ++ '"' :: rest) ps rest') : ps = s.map .char := by
  induction s generalizing ps with
  | nil =>
    cases h with
    | quote => rfl
    | char _ _ hq => exact absurd rfl hq
  | cons c s ih =>
    rw [escape, List.flatMap_cons, ← escape] at h
    split at h
    · rename_i special
      obtain ⟨ps, rfl, more⟩ := exists_of_textReading_escaped special h
      rw [List.map_cons, ih more]
    · rename_i plain
      obtain ⟨ps, rfl, more⟩ := exists_of_textReading_char plain h
      rw [List.map_cons, ih more]

theorem eq_of_ofJson?_escape {q : Char} (hq : isQuote q = true) {s : List Char} {t : Tag}
    (h : ofJson? (q :: escape q s ++ [q]) = some t) : t = .text (String.ofList s) := by
  obtain ⟨f, d, rest, reading, -, ht⟩ :=
    reading_of_ofJson? (stops_cons (isBlank_of_isQuote hq) _) h
  generalize same : q :: (escape q s).append [q] = u at reading
  rcases isQuote_cases hq with rfl | rfl
  · cases reading with
    | text text =>
      obtain ⟨-, rfl⟩ := List.cons.inj same
      obtain rfl := pieces_of_escape (quoted?_eq_some_iff.mp text)
      rw [ofDocument?, assemble?_map_char] at ht
      cases ht
      rfl
    | number spelled => exact absurd same.symm (spelled.signed_append_ne (by decide) _ _)
    | _ => cases (List.cons.inj same).1
  · cases reading with
    | number spelled => exact absurd same.symm (spelled.signed_append_ne (by decide) _ _)
    | _ => cases (List.cons.inj same).1

def numberText (n : Int) : NumberText := ⟨decide (n < 0), Numeral.ofNat n.natAbs, none, none⟩

theorem negative_numberText (n : Int) : (numberText n).negative = true ↔ n < 0 :=
  decide_eq_true_iff

theorem intText_eq (n : Int) : intText n = (numberText n).signed (Numeral.ofNat n.natAbs) := by
  rw [NumberText.signed]
  cases n with
  | ofNat n =>
    have positive : ¬(numberText (.ofNat n)).negative = true := fun negative =>
      Int.not_lt.mpr (Int.natCast_nonneg n) ((negative_numberText _).mp negative)
    rw [if_neg positive]
    rfl
  | negSucc n =>
    rw [if_pos ((negative_numberText _).mpr (Int.negSucc_lt_zero n))]
    rfl

theorem spells_numberText (n : Int) : Spells (numberText n) (Numeral.ofNat n.natAbs) := by
  have digits : IsDigits (Numeral.ofNat n.natAbs) :=
    ⟨Numeral.ofNat_ne_nil _, fun _ => Numeral.isDigit_of_mem_ofNat⟩
  have spelled := Spells.intro (decide (n < 0)) digits (Numeral.ofNat_ne_zero_cons _) .none .none
  rwa [List.append_nil, List.append_nil] at spelled

theorem value_numberText (n : Int) : (numberText n).value = n := by
  have magnitude : digitsValue (numberText n).whole = n.natAbs := digitsValue_ofNat _
  rw [NumberText.value, magnitude]
  split
  · rename_i negative
    have := (negative_numberText n).mp negative
    omega
  · rename_i positive
    rw [negative_numberText] at positive
    omega

theorem value_numberText_ne_zero {n : Int} (negative : (numberText n).negative = true) :
    (numberText n).value ≠ 0 := by
  have := (negative_numberText n).mp negative
  rw [value_numberText]
  omega

theorem tag?_numberText {n : Int} (least : -(2 ^ 63) ≤ n) (greatest : n < 2 ^ 64) :
    (numberText n).tag? = some (.int n) := by
  have value := value_numberText n
  rw [NumberText.tag?, NumberText.integer?_eq_some ⟨rfl, rfl⟩ (by omega) (by omega)
    value_numberText_ne_zero, value]

theorem number?_intText {n : Int} (least : -(2 ^ 63) ≤ n) (greatest : n < 2 ^ 63) :
    number? (intText n) = some (.int n) := by
  have value := value_numberText n
  have alike : (numberText n).ReadsAlike :=
    .int ⟨rfl, rfl⟩ (by omega) (by omega) value_numberText_ne_zero
  rw [intText_eq]
  exact Json.number?_signed (spells_numberText n) alike (tag?_numberText least (by omega))

theorem agreedLeaf_intText {n : Int} (least : -(2 ^ 63) ≤ n) (greatest : n < 2 ^ 63) :
    AgreedLeaf (.int n) (intText n) := by
  have spelled := spells_numberText n
  have number := number?_intText least greatest
  rw [intText_eq] at number ⊢
  exact agreedLeaf_of_bare (ofBare_of_number? number) spelled.signed_ne_nil
    (List.all_eq_true.mpr spelled.isBareValue) (fun _ => value?_number spelled)
    (tag?_numberText least (by omega))

theorem isSuffix_spec {c : Char} (h : isSuffix c = true) :
    Cursor.isBareValue c = true ∧ c.isDigit = false ∧ c ≠ '.' ∧ (c == 'e' || c == 'E') = false := by
  have mem : c ∈ ['b', 'B', 's', 'S', 'l', 'L', 'f', 'F', 'd', 'D'] := List.contains_iff_mem.mp h
  simp only [List.mem_cons, List.not_mem_nil, or_false] at mem
  rcases mem with rfl | rfl | rfl | rfl | rfl | rfl | rfl | rfl | rfl | rfl <;> decide

theorem ofJson?_intText_suffix (n : Int) {c : Char} (hc : isSuffix c = true) :
    ofJson? (intText n ++ [c]) = none := by
  obtain ⟨bare, digit, -⟩ := isSuffix_spec hc
  have spelled := spells_numberText n
  have word : ∀ d ∈ intText n ++ [c], Cursor.isBareValue d = true := by
    rw [intText_eq]
    exact List.forall_mem_append.mpr ⟨spelled.isBareValue, List.forall_mem_singleton.mpr bare⟩
  have solid : Stops Text.isBlank (intText n ++ [c]) := fun d hd =>
    isBlank_of_isBareValue (word d (List.mem_of_mem_head? hd))
  refine Option.eq_none_iff_forall_ne_some.mpr fun t h => ?_
  obtain ⟨f, d, rest, reading, hrest, -⟩ := reading_of_ofJson? solid h
  have start {q : Char} {s : List Char} (hq : q ≠ '-' ∧ q.isDigit = false) :
      intText n ++ [c] ≠ q :: s := by
    rw [intText_eq]
    exact spelled.signed_append_ne hq [c] s
  -- Strict JSON would take the whole word for a number, but a number ends with a digit.
  generalize same : intText n ++ [c] = u at reading
  cases reading with
  | @number m v spelled' =>
    have stop := hrest.stops fun _ => isBareValue_of_isBlank
    rw [← List.append_nil (intText n ++ [c])] at same
    obtain ⟨whole, -⟩ :=
      eq_of_append_of_stops word spelled'.isBareValue (stops_nil _) stop same
    obtain ⟨s, e, rfl, last⟩ := spelled'.eq_append_digit
    have split : m.signed (s ++ [e]) = m.signed s ++ [e] := by
      rw [NumberText.signed, NumberText.signed]
      split <;> rfl
    rw [split] at whole
    obtain rfl := List.singleton_inj.mp (List.append_inj_right' whole rfl)
    rw [digit] at last
    cases last
  | _ => exact start (by decide) same

theorem number?_intText_suffix (n : Int) {c : Char} (hc : isSuffix c = true) :
    number? (intText n ++ [c]) = none := by
  obtain ⟨-, digit, point, mark⟩ := isSuffix_spec hc
  have digits : ∀ d ∈ Numeral.ofNat n.natAbs, d.isDigit = true :=
    fun _ => Numeral.isDigit_of_mem_ofNat
  have split : intText n ++ [c] = (numberText n).signed (Numeral.ofNat n.natAbs ++ [c]) := by
    rw [intText_eq, NumberText.signed, NumberText.signed]
    split <;> rfl
  have stop : Stops Char.isDigit [c] := stops_cons digit _
  have parts : decimalParts (Numeral.ofNat n.natAbs ++ [c]) =
      (Numeral.ofNat n.natAbs, [], [c]) := by
    rw [decimalParts, takeWhile_append_of_stops digits stop, dropWhile_append_of_stops digits stop]
    split
    · rename_i same
      exact absurd (List.cons.inj same).1 point
    · rfl
  have exponent : decimalExponent? [c] = none := by
    rw [decimalExponent?.eq_def]
    dsimp only
    rw [mark]
    rfl
  have magnitude : magnitude? (numberText n).negative (Numeral.ofNat n.natAbs ++ [c]) = none := by
    rw [magnitude?, parts]
    split
    · rfl
    · rename_i same
      cases same
      rw [exponent]
  obtain ⟨d, s, same⟩ := List.exists_cons_of_ne_nil (Numeral.ofNat_ne_nil n.natAbs)
  rw [split, number?]
  rw [same] at digits magnitude ⊢
  have first := digits d List.mem_cons_self
  split
  · rename_i i read
    have all := Json.digits_of_integer_signed first read c (by simp)
    rw [digit] at all
    cases all
  · rw [List.cons_append, Json.float?_signed first, ← List.cons_append, magnitude]
    rfl

theorem agreedLeaf_intText_suffix {n : Int} {c : Char} (least : -(2 ^ 63) ≤ n)
    (greatest : n < 2 ^ 63) (hc : isSuffix c = true) : AgreedLeaf (.int n) (intText n ++ [c]) := by
  obtain ⟨bare, -⟩ := isSuffix_spec hc
  have spelled := spells_numberText n
  have drop : (dropSuffix (intText n ++ [c])).bind number? = some (.int n) := by
    rw [dropSuffix, List.getLast?_concat]
    dsimp only
    rw [if_pos hc, List.dropLast_concat]
    exact number?_intText least greatest
  have word : ∀ w ∈ ["true", "false", "null"], intText n ++ [c] ≠ w.toList := by
    rw [intText_eq]
    intro w hw
    simp only [List.mem_cons, List.not_mem_nil, or_false] at hw
    rcases hw with rfl | rfl | rfl <;> exact spelled.signed_append_ne (by decide) _ _
  have read : ofBare (intText n ++ [c]) = .int n := by
    rw [ofBare, if_neg (word _ (by simp)), if_neg (word _ (by simp)), if_neg (word _ (by simp)),
      number?_intText_suffix n hc, drop]
  refine ⟨.of_ofBare read (by simp) ?_, fun strict => ?_⟩
  · rw [intText_eq]
    exact List.forall_mem_append.mpr ⟨spelled.isBareValue, List.forall_mem_singleton.mpr bare⟩
  · rw [ofJson?_intText_suffix n hc] at strict
    cases strict

theorem BlockKey.agreed {k w : List Char} (h : BlockKey k w) : AgreedKey k w := by
  cases h with
  | bare ne h => exact .bare ne h
  | quoted hq ne =>
    refine .quoted hq ne (quotes_escape hq k) fun strict => ?_
    cases eq_of_ofJson?_escape hq strict
    rfl

theorem BlockLeaf.agreed {t : Tag} {w : List Char} (h : BlockLeaf t w) : AgreedLeaf t w := by
  cases h with
  | null => exact agreedLeaf_of_bare rfl (List.cons_ne_nil _ _) rfl (fun _ => rfl) rfl
  | trueWord => exact agreedLeaf_of_bare rfl (List.cons_ne_nil _ _) rfl (fun _ => rfl) rfl
  | falseWord => exact agreedLeaf_of_bare rfl (List.cons_ne_nil _ _) rfl (fun _ => rfl) rfl
  | int least greatest => exact agreedLeaf_intText least greatest
  | suffixed least greatest hc => exact agreedLeaf_intText_suffix least greatest hc
  | quoted hq s => exact ⟨.quoted hq (quotes_escape hq s), eq_of_ofJson?_escape hq⟩
  | bare h =>
    refine ⟨.of_ofBare h.relaxed h.ne_nil h.bare, fun strict => ?_⟩
    rw [h.strict] at strict
    cases strict

theorem Writes.agreed_of_block {t : Tag} {w : List Char} (h : Writes .block t w) :
    Writes .agreed t w :=
  h.mono (fun _ _ => BlockKey.agreed) fun _ _ => BlockLeaf.agreed

/-- Every text of a compound is read back as it. -/
theorem read_eq_of_writes {entries : Tags} {w before after : List Char}
    (h : Writes .block (.compound entries) w) (hbefore : IsPadding before)
    (hafter : IsPadding after) :
    Tags.read (String.ofList (before ++ (w ++ after))) = .ok entries :=
  h.agreed_of_block.read_eq hbefore hafter

theorem read_eq_of_writes_of_pair :
    Tags.read (String.ofList ['\x7b', 'a', ':', ' ', 'x', ':', 'y', '\x7d', '\n']) =
      .ok [("a", .text "x:y")] := by
  let pair : Member := ⟨[], ['a'], ['a'], [], ⟨[' '], .text "x:y", ['x', ':', 'y'], []⟩⟩
  have key : BlockKey ['a'] ['a'] := .bare (by decide) (List.all_eq_true.mp rfl)
  have word : IsTextWord ['x', ':', 'y'] := ⟨by decide, List.all_eq_true.mp rfl, rfl, rfl⟩
  have value : Writes .block (.text "x:y") ['x', ':', 'y'] := .leaf (.bare word)
  have padded : pair.IsPadded :=
    ⟨List.forall_mem_nil _, List.forall_mem_nil _, List.forall_mem_singleton.mpr rfl,
      List.forall_mem_nil _⟩
  have layout : compoundText [] [pair] = ['\x7b', 'a', ':', ' ', 'x', ':', 'y', '\x7d'] := rfl
  have entries : Dictionary.ofList [pair.entry] = [("a", .text "x:y")] := rfl
  have block := @Writes.compound .block [] [pair] (List.forall_mem_nil _)
    (List.forall_mem_singleton.mpr padded) (List.forall_mem_singleton.mpr key)
    (List.forall_mem_singleton.mpr value)
  rw [List.map_singleton, layout, entries] at block
  have read := @read_eq_of_writes _ _ [] ['\n'] block (List.forall_mem_nil _)
    (List.forall_mem_singleton.mpr rfl)
  simpa only [List.nil_append, List.cons_append] using read

/-- A number that is nearer to `2 ^ 1024` than to the largest double, though by little. -/
def farWord : List Char :=
  ['1', '7', '9', '7', '6', '9', '3', '1', '3', '4', '8', '6', '2', '3', '1', '5', '8', '1', 'e',
    '2', '9', '1']

theorem ofBare_farWord : ofBare farWord = .text (String.ofList farWord) := by
  have words : ∀ v ∈ ["true", "false", "null"], farWord ≠ v.toList := by decide
  have number : number? farWord = none := by
    have magnitude : magnitude? false farWord = none := by decide +kernel
    obtain ⟨e, integer⟩ : ∃ e, Numeral.integer (Nat.pow 2 63 - 1) farWord = .error e := ⟨_, rfl⟩
    have float : float? farWord = none := magnitude
    rw [number?, integer, float]
    rfl
  have drop : dropSuffix farWord = none := by decide
  rw [ofBare, if_neg (words _ (by simp)), if_neg (words _ (by simp)), if_neg (words _ (by simp)),
    number, drop]
  rfl

theorem read_eq_float_of_farWord :
    (∀ c ∈ farWord, Cursor.isBareValue c = true) ∧
      ofBare farWord = .text (String.ofList farWord) ∧
      Tags.read (String.ofList (['\x7b', '"', 'a', '"', ':'] ++ farWord ++ ['\x7d'])) =
        .ok [("a", .float ⟨false, 9007199254740991, 971⟩)] := by
  let n : NumberText := ⟨false, farWord.take 18, none, some (false, ['2', '9', '1'])⟩
  let largest : Tag := .float ⟨false, 9007199254740991, 971⟩
  have number : n.tag? = some largest := by
    have float : n.float? = some ⟨false, 9007199254740991, 971⟩ := by decide +kernel
    rw [NumberText.tag?, float]
    rfl
  have members : entriesOfMembers? 126 [([.char 'a'], .number n)] = some [("a", largest)] := by
    rw [entriesOfMembers?, ofDocument?, number]
    rfl
  have read : read? (['\x7b', '"', 'a', '"', ':'] ++ farWord ++ ['\x7d']) =
      some (.object [([.char 'a'], .number n)]) := rfl
  have entries : Dictionary.ofList [("a", largest)] = [("a", largest)] := rfl
  have json : ofJson? (['\x7b', '"', 'a', '"', ':'] ++ farWord ++ ['\x7d']) =
      some (.compound [("a", largest)]) := by
    rw [ofJson?, read, Option.bind_some, maxDepth, ofDocument?, members, Option.map_some, entries]
  refine ⟨List.all_eq_true.mp rfl, ofBare_farWord, ?_⟩
  rw [Tags.read, String.toList_ofList, ofText, json]

end ItemLexicon.Tag
