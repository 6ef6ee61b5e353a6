import GrowTeam.Links.Encoding

/-!
# Texts hidden in a hash

Both encoders leave the same characters, and write every byte of another character as `.` and
two digits.  So a hidden text has only a few characters, none of which ends a part of a hash,
and the server reads it as it was, except that it takes white space off its ends.
-/

namespace GrowTeam.Links

open PercentCoding List

/-- A character that both encoders leave. -/
def plain (c : Char) : Bool := c.isAlphanum || "-_~".toList.contains c

variable (s : Text)

def hidden : Text := PercentCoding.encode '.' plain s

/-- A character of a hidden text. -/
def word (c : Char) : Bool := plain c || c = '.'

variable {c : Char}

theorem plain_ascii (h : plain c = true) : isAscii c = true := by
  have hranges : ((decide (c.val ≥ 'A'.val ∧ c.val ≤ 'Z'.val) ||
      (c.val ≥ 'a'.val && c.val ≤ 'z'.val) || (c.val ≥ '0'.val && c.val ≤ '9'.val)) ||
      "-_~".toList.contains c) = true := h
  simp only [Bool.or_eq_true, Bool.and_eq_true, decide_eq_true_eq, contains_iff_mem] at hranges
  rw [isAscii, decide_eq_true_eq]
  show c.val.toNat < 0x80
  rcases hranges with ((⟨_, hu⟩ | ⟨_, hl⟩) | ⟨_, hd⟩) | hmem
  · exact Nat.lt_of_le_of_lt (UInt32.le_iff_toNat_le.mp hu) (by decide)
  · exact Nat.lt_of_le_of_lt (UInt32.le_iff_toNat_le.mp hl) (by decide)
  · exact Nat.lt_of_le_of_lt (UInt32.le_iff_toNat_le.mp hd) (by decide)
  · have hall : "-_~".toList.all (fun d => d.val.toNat < 0x80) = true := by decide
    exact of_decide_eq_true (all_eq_true.mp hall c hmem)

/-! ## The encoders -/

section Replaced

variable {kept : Char → Bool} {replace : Char → Text}
  (hpercent : replace '%' = ['.'])
  (hdigit : ∀ n < 16, replace (hexDigit n) = [hexDigit n])
  (hkept : ∀ c, kept c = true → replace c = encodeChar '.' plain c)
  (hplain : ∀ c, kept c = false → plain c = false)

include hpercent hdigit hkept hplain

theorem encode_replaced (s : Text) : (encode '%' kept s).flatMap replace = hidden s := by
  rw [encode, flatMap_assoc]
  congr 1
  funext c
  by_cases hc : kept c = true
  · rw [encodeChar, if_pos hc, flatMap_singleton, hkept c hc]
  · have hescape : ∀ b, (escape '%' b).flatMap replace = escape '.' b := by
      intro b
      have hb := b.toNat_lt
      simp only [escape, flatMap_cons, flatMap_nil, hpercent,
        hdigit _ (show b.toNat / 16 < 16 by omega), hdigit _ (show b.toNat % 16 < 16 by omega)]
      rfl
    have hnot : ¬ plain c = true := by
      rw [hplain c (by simpa using hc)]
      exact Bool.false_ne_true
    rw [encodeChar, if_neg hc, encodeChar, if_neg hnot, flatMap_assoc]
    congr 1
    funext b
    exact hescape b

end Replaced

/-- A letter or digit is none of the other characters. -/
theorem ne_of_isAlphanum {d : Char} (hc : c.isAlphanum = true) (hd : d.isAlphanum = false) :
    c ≠ d := by
  rintro rfl
  rw [hc] at hd
  cases hd

theorem encodeChar_plain (h : plain c = true) : encodeChar '.' plain c = [c] := by
  rw [encodeChar, if_pos h]

/-- A character that is neither a letter or digit nor among marks that include the plain ones. -/
theorem plain_false {marks : Text} (hsub : "-_~".toList ⊆ marks)
    (hc : c.isAlphanum = false ∧ marks.contains c = false) : plain c = false := by
  simp only [plain, hc.1, Bool.false_or]
  rw [← Bool.not_eq_true, contains_iff_mem]
  intro h
  have hmem := contains_iff_mem.mpr (hsub h)
  rw [hc.2] at hmem
  cases hmem

theorem encodeHashComponent_eq : encodeHashComponent s = hidden s := by
  apply encode_replaced
  · decide
  · decide
  · intro c hc
    simp only [alwaysSafe, Bool.or_eq_true, contains_iff_mem] at hc
    rcases hc with hc | hc
    · have hne : ∀ d : Char, d.isAlphanum = false → c ≠ d := fun d hd => ne_of_isAlphanum hc hd
      rw [encodeChar_plain (by simp [plain, hc])]
      simp [hashReplacements, hne '%' rfl, hne '(' rfl, hne ')' rfl, hne '.' rfl]
    · have hall : "_.-~".toList.all
          (fun d => (hashReplacements d).getD [d] = encodeChar '.' plain d) = true := by decide
      exact of_decide_eq_true (all_eq_true.mp hall c hc)
  · intro c hc
    rw [alwaysSafe, Bool.or_eq_false_iff] at hc
    exact plain_false (by simp) hc

/-- The web app encodes as the server does. -/
theorem Web.encodeHashComponent_eq : Web.encodeHashComponent s = hidden s := by
  apply encode_replaced
  · decide
  · decide
  · intro c hc
    simp only [Web.unreserved, Bool.or_eq_true, contains_iff_mem, decide_eq_true_eq] at hc
    rcases hc with (hc | hc) | rfl
    · have hne : ∀ d : Char, d.isAlphanum = false → c ≠ d := fun d hd => ne_of_isAlphanum hc hd
      rw [encodeChar_plain (by simp [plain, hc])]
      simp [Web.hashReplacements, hne '%' rfl, hne '!' rfl, hne Web.apostrophe rfl, hne '(' rfl,
        hne ')' rfl, hne '*' rfl, hne '.' rfl]
    · have hall : "-_.!~*()".toList.all
          (fun d => (Web.hashReplacements d).getD [d] = encodeChar '.' plain d) = true := by decide
      exact of_decide_eq_true (all_eq_true.mp hall c hc)
    · decide
  · intro c hc
    simp only [Web.unreserved, Bool.or_eq_false_iff] at hc
    exact plain_false (by simp) hc.1

/-! ## What a hidden text is made of -/

theorem hexDigit_plain : ∀ n < 16, plain (hexDigit n) = true := by
  decide

theorem word_of_plain (h : plain c = true) : word c = true := by
  rw [word, h, Bool.true_or]

theorem hidden_word : ∀ c ∈ hidden s, word c = true := by
  intro c hc
  obtain ⟨a, -, ha⟩ := mem_flatMap.mp hc
  unfold encodeChar at ha
  split at ha
  · next h =>
    rw [mem_singleton.mp ha]
    exact word_of_plain h
  · obtain ⟨b, -, hb⟩ := mem_flatMap.mp ha
    have hlt := b.toNat_lt
    simp only [escape, mem_cons, not_mem_nil, or_false] at hb
    rcases hb with rfl | rfl | rfl
    · rfl
    · exact word_of_plain (hexDigit_plain _ (by omega))
    · exact word_of_plain (hexDigit_plain _ (by omega))

theorem hidden_append (s t : Text) : hidden (s ++ t) = hidden s ++ hidden t :=
  flatMap_append

/-- A text of plain characters is not changed. -/
theorem hidden_of_plain {s : Text} (h : ∀ c ∈ s, plain c = true) : hidden s = s := by
  induction s with
  | nil => rfl
  | cons c s ih =>
    have hs := ih fun d hd => h d (mem_cons_of_mem _ hd)
    show encodeChar '.' plain c ++ hidden s = c :: s
    rw [encodeChar_plain (h c mem_cons_self), hs, singleton_append]

/-! ## Reading a hidden text -/

theorem percents_hidden :
    (hidden s).map (fun c => if c = '.' then '%' else c) = encode '%' plain s := by
  rw [hidden, encode, map_flatMap]
  congr 1
  funext c
  unfold encodeChar
  split
  · next h =>
    have hne : c ≠ '.' := by
      rintro rfl
      exact absurd h (by decide)
    rw [map_singleton, if_neg hne]
  · rw [map_flatMap]
    congr 1
    funext b
    have hdigit : ∀ n < 16, hexDigit n ≠ '.' := by decide
    have hb := b.toNat_lt
    simp only [escape, map_cons, map_nil, if_true,
      if_neg (hdigit _ (show b.toNat / 16 < 16 by omega)),
      if_neg (hdigit _ (show b.toNat % 16 < 16 by omega))]

/-- **A hidden text is read as it was.** -/
theorem decodeHashComponent_hidden : decodeHashComponent (hidden s) = s := by
  rw [decodeHashComponent, percents_hidden]
  exact unquote_encode (fun _ h => plain_ascii h) rfl s

/-- **A text survives a link**, whichever side encodes it. -/
theorem decodeHashComponent_encoded : decodeHashComponent (encodeHashComponent s) = s ∧
    decodeHashComponent (Web.encodeHashComponent s) = s := by
  rw [encodeHashComponent_eq, Web.encodeHashComponent_eq]
  exact ⟨decodeHashComponent_hidden s, decodeHashComponent_hidden s⟩

/-! # The parts of a link -/

open PercentCoding

variable (U : CharacterData)

/-! ## Numbers -/

theorem isDigit_of_mem_str {n : ℕ} (h : c ∈ str n) : c.isDigit = true :=
  Nat.isDigit_of_mem_toDigits (by decide) (by decide) h

theorem plain_of_isDigit (h : c.isDigit = true) : plain c = true := by
  simp [plain, Char.isAlphanum, h]

theorem ne_of_isDigit {d : Char} (hc : c.isDigit = true) (hd : d.isDigit = false) : c ≠ d := by
  rintro rfl
  rw [hc] at hd
  cases hd

/-- A digit is no white space. -/
theorem not_space_of_isDigit (h : c.isDigit = true) : Server.isSpace c = false := by
  obtain ⟨hlow, hhigh⟩ : 0x30 ≤ c.toNat ∧ c.toNat ≤ 0x39 := Char.isDigit_iff_toNat.mp h
  simp only [Server.isSpace, Bool.or_eq_false_iff, Bool.and_eq_false_iff, decide_eq_false_iff_not,
    mem_cons, not_mem_nil, or_false]
  omega

theorem digits_of_isDigit {l : Text} (h : ∀ c ∈ l, c.isDigit = true) :
    ∀ n, digits U false n l = some (Nat.ofDigitChars 10 l n) := by
  induction l with
  | nil => exact fun n => by rfl
  | cons c l ih =>
    intro n
    have hc := h c mem_cons_self
    rw [digits, if_neg (ne_of_isDigit hc (by decide)),
      U.decimal_ascii c (plain_ascii (plain_of_isDigit hc)), if_pos hc]
    dsimp only
    rw [ih (fun d hd => h d (mem_cons_of_mem _ hd))]
    rfl

/-- **The digits of a number are read as the number.** -/
theorem int_str (n : ℕ) : int U (str n) = some (n : ℤ) := by
  have hdigit : ∀ c ∈ str n, c.isDigit = true := fun c hc => isDigit_of_mem_str hc
  have hstrip : strip (str n) = str n :=
    Words.strip_eq_self fun c hc => not_space_of_isDigit (hdigit c hc)
  have hvalue : Nat.ofDigitChars 10 (str n) 0 = n := Nat.ofDigitChars_ten_toDigits
  rw [int, hstrip]
  cases hs : str n with
  | nil => exact absurd hs Nat.toDigits_ne_nil
  | cons c l =>
    rw [hs] at hdigit hvalue
    have hc := hdigit c mem_cons_self
    have hread : digits U true 0 (c :: l) = some n := by
      have hfalse : digits U true 0 (c :: l) = digits U false 0 (c :: l) := by
        have hne : c ≠ '_' := ne_of_isDigit hc (by decide)
        rw [digits, digits, if_neg hne, if_neg hne]
      rw [hfalse, digits_of_isDigit U hdigit, hvalue]
    split
    · next h => exact absurd (List.cons.inj h).1 (ne_of_isDigit hc (by decide))
    · next h => exact absurd (List.cons.inj h).1 (ne_of_isDigit hc (by decide))
    · rw [hread]
      rfl

/-! ## Slugs -/

/-- The operand that names some ids. -/
def recipient : List ℕ → Operand
  | [i] => .id i
  | l => .ids (l.map Int.ofNat)

variable (ids : List ℕ)

theorem recipient_users : (recipient ids).users = ids.map Int.ofNat := by
  unfold recipient
  split <;> rfl

/-- The ids of a slug. -/
def joined : Text := [','].intercalate (ids.map str)

theorem mem_intercalate {x : Char} {ls : List Text} (h : c ∈ [x].intercalate ls) :
    c = x ∨ ∃ l ∈ ls, c ∈ l := by
  induction ls with
  | nil => cases h
  | cons l ls ih =>
    cases ls with
    | nil =>
      rw [intercalate_singleton] at h
      exact .inr ⟨l, mem_singleton_self l, h⟩
    | cons m ls =>
      rw [intercalate_cons_cons, append_assoc, mem_append, mem_append, mem_singleton] at h
      rcases h with h | h | h
      · exact .inr ⟨l, mem_cons_self, h⟩
      · exact .inl h
      · rcases ih h with hx | ⟨k, hk, hc⟩
        · exact .inl hx
        · exact .inr ⟨k, mem_cons_of_mem _ hk, hc⟩

theorem mem_joined {ids : List ℕ} (h : c ∈ joined ids) :
    c.isDigit = true ∨ c = ',' := by
  rcases mem_intercalate h with hcomma | ⟨l, hl, hc⟩
  · exact .inr hcomma
  · obtain ⟨i, -, rfl⟩ := mem_map.mp hl
    exact .inl (isDigit_of_mem_str hc)

theorem splitOn_joined {ids : List ℕ} (hne : ids ≠ []) :
    (joined ids).splitOn ',' = ids.map str := by
  apply splitOn_intercalate
  · intro l hl hcomma
    obtain ⟨i, -, rfl⟩ := mem_map.mp hl
    exact absurd rfl (ne_of_isDigit (isDigit_of_mem_str hcomma) (by decide))
  · simpa using hne

theorem ints_str : (ids.map str).mapM (int U) = some (ids.map Int.ofNat) := by
  induction ids with
  | nil => rfl
  | cons i ids ih =>
    rw [map_cons, mapM_cons, int_str, ih]
    rfl

theorem splitOnce_cons {ids suffix : Text} (h : '-' ∉ ids) :
    splitOnce (ids ++ '-' :: suffix) = some (ids, suffix) := by
  have hne : ∀ c ∈ ids, (decide (c ≠ '-')) = true := by
    intro c hc
    rw [decide_eq_true_eq]
    rintro rfl
    exact h hc
  rw [splitOnce, dropWhile_append_of_pos hne, dropWhile_cons_of_neg (by decide)]
  rw [takeWhile_append_of_pos hne, takeWhile_cons_of_neg (by decide), append_nil]

/-- A slug without a `-` names nobody. -/
theorem parseRecipientSlug_eq_none {slug : Text} (h : '-' ∉ slug) :
    parseRecipientSlug U slug = none := by
  have hdrop : slug.dropWhile (· ≠ '-') = [] := by
    rw [← append_nil slug, dropWhile_append_of_pos]
    · rfl
    · intro c hc
      rw [decide_eq_true_eq]
      rintro rfl
      exact h hc
  rw [parseRecipientSlug, splitOnce, hdrop]

theorem not_mem_joined : '-' ∉ joined ids := by
  intro h
  rcases mem_joined h with hdigit | hcomma
  · exact absurd rfl (ne_of_isDigit hdigit (by decide))
  · exact absurd hcomma (by decide)

/-- **The ids before a `-` are read.** -/
theorem parseRecipientSlug_joined {ids : List ℕ} (hne : ids ≠ []) (suffix : Text) :
    parseRecipientSlug U (joined ids ++ '-' :: suffix) = some (recipient ids, suffix) := by
  rw [parseRecipientSlug, splitOnce_cons (not_mem_joined ids)]
  dsimp only
  rw [splitOn_joined hne, ints_str]
  match ids with
  | [] => exact absurd rfl hne
  | [i] => rfl
  | i :: j :: ids => rfl

/-! ## Terms -/

/-- The operators of the links. -/
def linkOperators : List Text :=
  ["channel".toList, "topic".toList, "dm".toList, "near".toList, "with".toList]

/-- An operator of a link is read as itself. -/
theorem parseTerm_eq {operator : Text} (h : operator ∈ linkOperators) (raw_operand : Text) :
    parseTerm U operator raw_operand =
      match decodeNarrowOperand U operator raw_operand with
      | .error e => .error e
      | .ok operand =>
        if operand = .text [] ∧ operator ≠ "topic".toList then .ok none
        else .ok (some ⟨operator, operand, false⟩) := by
  have hdecode : ∀ o ∈ linkOperators, strip (decodeHashComponent o) = o := by decide
  have hne : ∀ o ∈ linkOperators, o ≠ [] ∧ o.head? ≠ some '-' := by decide
  have hascii : ∀ o ∈ linkOperators, o.all isAscii = true := by decide
  have hlower : ∀ o ∈ linkOperators, o.map Char.toLower = o := by decide
  have hsynonym : ∀ o ∈ linkOperators, (if (operatorSynonyms.map Prod.snd).contains o then o
      else (operatorSynonyms.lookup o).getD o) = o := by decide
  have hcanonical : canonicalizeOperatorSynonyms U operator = operator := by
    rw [canonicalizeOperatorSynonyms,
      U.lower_ascii operator (all_eq_true.mp (hascii operator h)), hlower operator h]
    exact hsynonym operator h
  obtain ⟨hnil, hnegated⟩ := hne operator h
  rw [parseTerm, hdecode operator h, if_neg hnil]
  simp only [hnegated, decide_false, if_false, hcanonical]
  all_goals rfl

section Operands

variable (raw_operand : Text)

theorem parseTerm_recipient {operator : Text} (h : operator ∈ ["channel".toList, "dm".toList]) :
    parseTerm U operator raw_operand =
      .ok ((parseRecipientSlug U raw_operand).bind fun r =>
        if r.1 = .text [] then none else some ⟨operator, r.1, false⟩) := by
  have hlink : ∀ o ∈ ["channel".toList, "dm".toList], o ∈ linkOperators ∧
      o ≠ "topic".toList ∧ recipientOperators.contains o = true := by decide
  obtain ⟨hmem, htopic, hrecipient⟩ := hlink operator h
  rw [parseTerm_eq U hmem, decodeNarrowOperand, if_pos hrecipient]
  cases parseRecipientSlug U raw_operand with
  | none =>
    dsimp only
    rw [if_pos ⟨rfl, htopic⟩]
    rfl
  | some r =>
    dsimp only [Option.bind_some]
    by_cases hr : r.1 = .text []
    · rw [if_pos ⟨hr, htopic⟩, if_pos hr]
    · rw [if_neg (fun h => hr h.1), if_neg hr]

theorem parseTerm_topic :
    parseTerm U "topic".toList raw_operand =
      .ok (some ⟨"topic".toList, .text (strip (decodeHashComponent raw_operand)), false⟩) := by
  rw [parseTerm_eq U (by decide), decodeNarrowOperand, if_neg (by decide)]
  simp

theorem parseTerm_near (n : ℕ) :
    parseTerm U "near".toList (str n) = .ok (some ⟨"near".toList, .id n, false⟩) := by
  have hall : (str n).all U.isdigit = true := by
    rw [all_eq_true]
    intro c hc
    have hdigit := isDigit_of_mem_str hc
    rw [U.isdigit_ascii c (plain_ascii (plain_of_isDigit hdigit)), hdigit]
  have hne : str n ≠ [] := Nat.toDigits_ne_nil
  rw [parseTerm_eq U (by decide), decodeNarrowOperand, if_neg (by decide), if_pos rfl,
    if_pos ⟨hne, hall⟩, int_str]
  simp

theorem parseTerm_with (n : ℕ) :
    parseTerm U "with".toList (str n) =
      .ok (some ⟨"with".toList, .text (str n), false⟩) := by
  have hdigit : ∀ c ∈ str n, c.isDigit = true := fun c hc => isDigit_of_mem_str hc
  have hdecode : decodeHashComponent (str n) = str n := by
    have hhidden := decodeHashComponent_hidden (str n)
    rwa [hidden_of_plain fun c hc => plain_of_isDigit (hdigit c hc)] at hhidden
  have hstrip : strip (str n) = str n :=
    Words.strip_eq_self fun c hc => not_space_of_isDigit (hdigit c hc)
  have hne : str n ≠ [] := Nat.toDigits_ne_nil
  rw [parseTerm_eq U (by decide), decodeNarrowOperand, if_neg (by decide), hdecode, hstrip]
  simp [hne]

end Operands

/-! ## Hashes -/

/-- A character of a part. -/
def inPart (c : Char) : Bool := word c || c = ','

theorem fragment_eq {base rest : Text} (hbase : '#' ∉ base)
    (hrest : ∀ c ∈ rest, "\t\r\n".toList.contains c = false) :
    fragment (base ++ '#' :: rest) = rest := by
  have hfilter : rest.filter (fun c => !"\t\r\n".toList.contains c) = rest := by
    rw [filter_eq_self]
    intro c hc
    rw [hrest c hc]
    rfl
  rw [fragment, filter_append, filter_cons_of_pos (by decide), hfilter,
    dropWhile_append_of_pos]
  · rfl
  · intro c hc
    rw [decide_eq_true_eq]
    rintro rfl
    exact hbase (mem_filter.mp hc).1

/-- **The terms of a hash are read from its parts.** -/
theorem parseNarrowUrl_parts {base : Text} {parts : List Text} (hbase : '#' ∉ base)
    (hne : parts ≠ []) (hparts : ∀ p ∈ parts, ∀ c ∈ p, inPart c = true) :
    parseNarrowUrl U (base ++ '#' :: ['/'].intercalate parts) = parseTerms U (parts.drop 1) := by
  have hnot : ∀ c d : Char, inPart c = true → inPart d = false → c ≠ d := by
    rintro c d hc hd rfl
    rw [hc] at hd
    cases hd
  have hclean : ∀ c ∈ ['/'].intercalate parts, "\t\r\n".toList.contains c = false := by
    intro c hc
    rw [← Bool.not_eq_true, contains_iff_mem]
    intro hmem
    rcases mem_intercalate hc with rfl | ⟨p, hp, hc⟩
    · exact absurd hmem (by decide)
    · have hall : "\t\r\n".toList.all (fun d => inPart d = false) = true := by decide
      have hout := of_decide_eq_true (all_eq_true.mp hall c hmem)
      exact hnot c c (hparts p hp c hc) hout rfl
  rw [parseNarrowUrl, fragment_eq hbase hclean, splitOn_intercalate _ _ hne]
  intro p hp hslash
  exact hnot '/' '/' (hparts p hp '/' hslash) (by decide) rfl

end GrowTeam.Links
