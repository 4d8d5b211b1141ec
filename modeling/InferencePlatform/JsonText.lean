import Mathlib.Tactic

/-!
# JSON texts

`dumps` writes a value with an indentation of two spaces and every character outside printable
ASCII escaped. A text has one reading: values with the same text are the same, whatever
follows them, as long as it does not continue a number. Strings are Unicode texts, without the
lone surrogates that Python's `str` also admits.
-/

namespace JsonText

theorem forall_mem_of_all {α : Type*} {p : α → Prop} [DecidablePred p] {xs : List α}
    (h : xs.all (fun x => p x) = true) : ∀ x ∈ xs, p x :=
  fun x hx => of_decide_eq_true (List.all_eq_true.mp h x hx)

/-- What numbers are written with, `Infinity` and `NaN` included. -/
def numeralChars : List Char := "+-.0123456789EINaefinty".toList

/-- A number as it is written. -/
structure Token where
  text : List Char
  starts : ∃ c ∈ text.head?, c ∈ "+-.0123456789IN".toList
  chars : ∀ c ∈ text, c ∈ numeralChars

inductive Json
  | null
  | bool (b : Bool)
  | number (token : Token)
  | string (s : String)
  | array (items : List Json)
  | object (entries : List (String × Json))

/-! ### Strings -/

def hexDigit (n : ℕ) : Char := Char.ofNat (if n < 10 then 48 + n else 87 + n)

def unicodeEscape (n : ℕ) : List Char :=
  ['\\', 'u', hexDigit (n / 4096 % 16), hexDigit (n / 256 % 16), hexDigit (n / 16 % 16),
    hexDigit (n % 16)]

def shortEscapes : List (Char × Char) :=
  [('"', '"'), ('\\', '\\'), ('\n', 'n'), ('\r', 'r'), ('\t', 't'), ('\x08', 'b'), ('\x0c', 'f')]

/-- Characters beyond the basic plane become two escapes, a surrogate pair. A `Char` is never a lone
surrogate; Python's `str` has these, and writes two of them like the character they pair up to. -/
def escape (c : Char) : List Char :=
  match shortEscapes.lookup c with
  | some e => ['\\', e]
  | none =>
    if 32 ≤ c.toNat ∧ c.toNat ≤ 126 then [c]
    else if c.toNat < 65536 then unicodeEscape c.toNat
    else unicodeEscape (55296 + (c.toNat - 65536) / 1024) ++
      unicodeEscape (56320 + (c.toNat - 65536) % 1024)

def quoted (s : String) : List Char := '"' :: (s.toList.flatMap escape ++ ['"'])

/-! ### Values -/

def newline (level : ℕ) : List Char := '\n' :: List.replicate (2 * level) ' '

mutual

def text (level : ℕ) : Json → List Char
  | .null => "null".toList
  | .bool true => "true".toList
  | .bool false => "false".toList
  | .number token => token.text
  | .string s => quoted s
  | .array [] => "[]".toList
  | .array (v :: vs) => '[' :: (newline (level + 1) ++ (text (level + 1) v ++ itemsText level vs))
  | .object [] => "\x7b\x7d".toList
  | .object ((k, v) :: es) =>
    '\x7b' :: (newline (level + 1) ++ (quoted k ++ (": ".toList ++
      (text (level + 1) v ++ entriesText level es))))

def itemsText (level : ℕ) : List Json → List Char
  | [] => newline level ++ [']']
  | v :: vs => ',' :: (newline (level + 1) ++ (text (level + 1) v ++ itemsText level vs))

def entriesText (level : ℕ) : List (String × Json) → List Char
  | [] => newline level ++ ['\x7d']
  | (k, v) :: es =>
    ',' :: (newline (level + 1) ++ (quoted k ++ (": ".toList ++
      (text (level + 1) v ++ entriesText level es))))

end

def dumps (v : Json) : String := String.ofList (text 0 v)

example : dumps (.object [("a", .array [.bool true, .null]), ("é\n", .object [])]) =
    "\x7b\n  \"a\": [\n    true,\n    null\n  ],\n  \"\\u00e9\\n\": \x7b\x7d\n\x7d" := by
  decide

/-! ### Reading a character back -/

def hexValue (c : Char) : ℕ := if c.toNat < 58 then c.toNat - 48 else c.toNat - 87

theorem hexValue_hexDigit : ∀ n < 16, hexValue (hexDigit n) = n := by
  decide

def readHex : List Char → Option (ℕ × List Char)
  | a :: b :: c :: d :: rest =>
    some (hexValue a * 4096 + hexValue b * 256 + hexValue c * 16 + hexValue d, rest)
  | _ => none

/-- Four hexadecimal digits, or eight when they start a surrogate pair. -/
def readUnicode (text : List Char) : Option (Char × List Char) := do
  let (n, rest) ← readHex text
  if n / 1024 = 54 then
    let (m, rest) ← readHex (rest.drop 2)
    pure (Char.ofNat (65536 + (n - 55296) * 1024 + (m - 56320)), rest)
  else pure (Char.ofNat n, rest)

def readEscape : List Char → Option (Char × List Char)
  | [] => none
  | e :: rest =>
    if e = 'u' then readUnicode rest
    else (shortEscapes.find? fun pair => pair.2 = e).map fun pair => (pair.1, rest)

def readChar : List Char → Option (Char × List Char)
  | [] => none
  | c :: rest => if c = '\\' then readEscape rest else some (c, rest)

theorem readHex_unicodeEscape {n : ℕ} (h : n < 65536) (rest : List Char) :
    readHex ((unicodeEscape n).drop 2 ++ rest) = some (n, rest) := by
  simp only [unicodeEscape, List.drop_succ_cons, List.drop_zero, List.cons_append, readHex,
    List.nil_append, Option.some.injEq, Prod.mk.injEq, and_true]
  repeat rw [hexValue_hexDigit _ (Nat.mod_lt _ (by decide))]
  omega

/-- Surrogates are not characters. -/
theorem toNat_div_ne (c : Char) (h : c.toNat < 65536) : c.toNat / 1024 ≠ 54 := by
  have hvalid := c.valid
  change c.toNat.isValidChar at hvalid
  unfold Nat.isValidChar at hvalid
  omega

theorem readChar_unicodeEscape (n : ℕ) (rest : List Char) :
    readChar (unicodeEscape n ++ rest) = readUnicode ((unicodeEscape n).drop 2 ++ rest) := rfl

theorem readUnicode_basic {n : ℕ} (h : n < 65536) (hn : n / 1024 ≠ 54) (rest : List Char) :
    readUnicode ((unicodeEscape n).drop 2 ++ rest) = some (Char.ofNat n, rest) := by
  simp only [readUnicode, readHex_unicodeEscape h, Option.bind_eq_bind, Option.bind_some, if_neg hn,
    Option.pure_def]

theorem readUnicode_pair {n m : ℕ} (h : n < 65536) (hn : n / 1024 = 54) (hm : m < 65536)
    (rest : List Char) :
    readUnicode ((unicodeEscape n).drop 2 ++ (unicodeEscape m ++ rest)) =
      some (Char.ofNat (65536 + (n - 55296) * 1024 + (m - 56320)), rest) := by
  have hdrop : (unicodeEscape m ++ rest).drop 2 = (unicodeEscape m).drop 2 ++ rest := rfl
  simp only [readUnicode, readHex_unicodeEscape h, Option.bind_eq_bind, Option.bind_some, if_pos hn,
    hdrop, readHex_unicodeEscape hm, Option.pure_def]

theorem readChar_short {c e : Char} (h : (c, e) ∈ shortEscapes) (rest : List Char) :
    readChar ('\\' :: e :: rest) = some (c, rest) := by
  simp only [shortEscapes, List.mem_cons, Prod.mk.injEq, List.not_mem_nil, or_false] at h
  rcases h with ⟨rfl, rfl⟩ | ⟨rfl, rfl⟩ | ⟨rfl, rfl⟩ | ⟨rfl, rfl⟩ | ⟨rfl, rfl⟩ | ⟨rfl, rfl⟩ |
    ⟨rfl, rfl⟩
  all_goals rfl

theorem readChar_escape (c : Char) (rest : List Char) :
    readChar (escape c ++ rest) = some (c, rest) := by
  have hlt : c.toNat < 1114112 := by
    have hvalid := c.valid
    change c.toNat.isValidChar at hvalid
    unfold Nat.isValidChar at hvalid
    omega
  unfold escape
  split
  case h_1 e he =>
    obtain ⟨before, after, heq, -⟩ := List.lookup_eq_some_iff.mp he
    exact readChar_short (heq ▸ List.mem_append_right _ List.mem_cons_self) rest
  case h_2 hnone =>
    split_ifs with hplain hbasic
    · have hslash : c ≠ '\\' := by
        rintro rfl
        cases hnone
      exact if_neg hslash
    · rw [readChar_unicodeEscape, readUnicode_basic hbasic (toNat_div_ne c hbasic),
        Char.ofNat_toNat]
    · have hcode : 65536 + (55296 + (c.toNat - 65536) / 1024 - 55296) * 1024 +
          (56320 + (c.toNat - 65536) % 1024 - 56320) = c.toNat := by
        omega
      rw [List.append_assoc, readChar_unicodeEscape,
        readUnicode_pair (by omega) (by omega) (by omega), hcode, Char.ofNat_toNat]

/-- A character is told from its escape, whatever follows. -/
theorem escape_cancel {c d : Char} {r s : List Char} (h : escape c ++ r = escape d ++ s) :
    c = d ∧ r = s := by
  have hread := readChar_escape c r
  rw [h, readChar_escape] at hread
  exact Prod.mk.inj (Option.some.inj hread).symm

theorem exists_escape_cons (c : Char) : ∃ d rest, escape c = d :: rest ∧ d ≠ '"' := by
  unfold escape
  split
  case h_1 e he => exact ⟨'\\', [e], rfl, by decide⟩
  case h_2 hnone =>
    split_ifs
    · refine ⟨c, [], rfl, ?_⟩
      rintro rfl
      cases hnone
    · exact ⟨'\\', _, rfl, by decide⟩
    · exact ⟨'\\', _, rfl, by decide⟩

theorem escapes_cancel {cs ds r s : List Char}
    (h : cs.flatMap escape ++ '"' :: r = ds.flatMap escape ++ '"' :: s) : cs = ds ∧ r = s := by
  induction cs generalizing ds with
  | nil =>
      cases ds with
      | nil => exact ⟨rfl, List.tail_eq_of_cons_eq h⟩
      | cons d ds =>
          obtain ⟨e, rest, he, hne⟩ := exists_escape_cons d
          rw [List.flatMap_cons, he] at h
          exact absurd (List.head_eq_of_cons_eq h).symm hne
  | cons c cs ih =>
      cases ds with
      | nil =>
          obtain ⟨e, rest, he, hne⟩ := exists_escape_cons c
          rw [List.flatMap_cons, he] at h
          exact absurd (List.head_eq_of_cons_eq h) hne
      | cons d ds =>
          rw [List.flatMap_cons, List.flatMap_cons, List.append_assoc, List.append_assoc] at h
          obtain ⟨rfl, hrest⟩ := escape_cancel h
          obtain ⟨rfl, rfl⟩ := ih hrest
          exact ⟨rfl, rfl⟩

theorem quoted_cancel {a b : String} {r s : List Char} (h : quoted a ++ r = quoted b ++ s) :
    a = b ∧ r = s := by
  unfold quoted at h
  rw [List.cons_append, List.cons_append, List.append_assoc, List.append_assoc] at h
  obtain ⟨hchars, rfl⟩ := escapes_cancel (List.tail_eq_of_cons_eq h)
  exact ⟨String.toList_inj.mp hchars, rfl⟩

/-! ### Reading a value back -/

/-- The text does not continue a number. -/
def Ends (rest : List Char) : Prop := ∀ c ∈ rest.head?, c ∉ numeralChars

/-- The longest part of a text over an alphabet is told from what follows. -/
theorem chars_cancel {alphabet as bs r s : List Char} (ha : ∀ c ∈ as, c ∈ alphabet)
    (hb : ∀ c ∈ bs, c ∈ alphabet) (hr : ∀ c ∈ r.head?, c ∉ alphabet)
    (hs : ∀ c ∈ s.head?, c ∉ alphabet) (h : as ++ r = bs ++ s) : as = bs ∧ r = s := by
  rcases List.append_eq_append_iff.mp h with ⟨t, rfl, rfl⟩ | ⟨t, rfl, rfl⟩
  · cases t with
    | nil => simp
    | cons c t => exact absurd (hb c (by simp)) (hr c rfl)
  · cases t with
    | nil => simp
    | cons c t => exact absurd (ha c (by simp)) (hs c rfl)

theorem Token.ext_text {a b : Token} (h : a.text = b.text) : a = b := by
  cases a
  cases b
  cases h
  rfl

def Json.kind : Json → ℕ
  | .null => 0
  | .bool _ => 1
  | .number _ => 2
  | .string _ => 3
  | .array _ => 4
  | .object _ => 5

def kindOf (c : Char) : ℕ :=
  if c = 'n' then 0 else if c = 't' ∨ c = 'f' then 1 else if c = '"' then 3
  else if c = '[' then 4 else if c = '\x7b' then 5 else 2

theorem kindOf_numeral : ∀ c ∈ "+-.0123456789IN".toList, kindOf c = 2 :=
  forall_mem_of_all (by decide)

/-- The first character of a text tells what kind of value it is. -/
theorem exists_text_cons (level : ℕ) (v : Json) :
    ∃ c rest, text level v = c :: rest ∧ kindOf c = v.kind := by
  cases v with
  | null => exact ⟨_, _, rfl, rfl⟩
  | bool b => cases b <;> exact ⟨_, _, rfl, rfl⟩
  | number token =>
      obtain ⟨c, hc, hnumeral⟩ := token.starts
      obtain ⟨rest, hrest⟩ := List.head?_eq_some_iff.mp hc
      exact ⟨c, rest, hrest, kindOf_numeral c hnumeral⟩
  | string s => exact ⟨_, _, rfl, rfl⟩
  | array items =>
      cases items with
      | nil => exact ⟨'[', [']'], rfl, rfl⟩
      | cons v vs => exact ⟨_, _, rfl, rfl⟩
  | object entries =>
      cases entries with
      | nil => exact ⟨'\x7b', ['\x7d'], rfl, rfl⟩
      | cons entry es => exact ⟨_, _, rfl, rfl⟩

theorem kind_eq {level : ℕ} {v w : Json} {r s : List Char}
    (h : text level v ++ r = text level w ++ s) : v.kind = w.kind := by
  obtain ⟨c, rest, hc, hv⟩ := exists_text_cons level v
  obtain ⟨d, rest', hd, hw⟩ := exists_text_cons level w
  rw [hc, hd] at h
  rw [← hv, ← hw, List.head_eq_of_cons_eq h]

theorem ends_itemsText (level : ℕ) (vs : List Json) (r : List Char) :
    Ends (itemsText level vs ++ r) := by
  cases vs with
  | nil => exact fun c hc => Option.some.inj hc ▸ by decide
  | cons v vs => exact fun c hc => Option.some.inj hc ▸ by decide

theorem ends_entriesText (level : ℕ) (es : List (String × Json)) (r : List Char) :
    Ends (entriesText level es ++ r) := by
  cases es with
  | nil => exact fun c hc => Option.some.inj hc ▸ by decide
  | cons entry es => exact fun c hc => Option.some.inj hc ▸ by decide

/-- The brackets aside, arrays are read like the items that follow a comma. -/
theorem itemsText_of_array {level : ℕ} {vs ws : List Json} {r s : List Char}
    (h : text level (.array vs) ++ r = text level (.array ws) ++ s) :
    itemsText level vs ++ r = itemsText level ws ++ s := by
  cases vs with
  | nil =>
      cases ws with
      | nil => rw [List.append_cancel_left h]
      | cons w ws => exact absurd (List.head_eq_of_cons_eq (List.tail_eq_of_cons_eq h)) (by decide)
  | cons v vs =>
      cases ws with
      | nil => exact absurd (List.head_eq_of_cons_eq (List.tail_eq_of_cons_eq h)) (by decide)
      | cons w ws => exact congrArg (List.cons ',') (List.tail_eq_of_cons_eq h)

theorem entriesText_of_object {level : ℕ} {es fs : List (String × Json)} {r s : List Char}
    (h : text level (.object es) ++ r = text level (.object fs) ++ s) :
    entriesText level es ++ r = entriesText level fs ++ s := by
  cases es with
  | nil =>
      cases fs with
      | nil => rw [List.append_cancel_left h]
      | cons f fs => exact absurd (List.head_eq_of_cons_eq (List.tail_eq_of_cons_eq h)) (by decide)
  | cons e es =>
      cases fs with
      | nil => exact absurd (List.head_eq_of_cons_eq (List.tail_eq_of_cons_eq h)) (by decide)
      | cons f fs => exact congrArg (List.cons ',') (List.tail_eq_of_cons_eq h)

mutual

theorem text_cancel (level : ℕ) (v w : Json) (r s : List Char) (hr : Ends r) (hs : Ends s)
    (h : text level v ++ r = text level w ++ s) : v = w ∧ r = s := by
  have hkind := kind_eq h
  cases v with
  | null =>
      cases w with
      | null => exact ⟨rfl, List.append_cancel_left h⟩
      | _ => cases hkind
  | bool a =>
      cases w with
      | bool b =>
          cases a <;> cases b
          · exact ⟨rfl, List.append_cancel_left h⟩
          · exact absurd (List.head_eq_of_cons_eq h) (by decide)
          · exact absurd (List.head_eq_of_cons_eq h) (by decide)
          · exact ⟨rfl, List.append_cancel_left h⟩
      | _ => cases hkind
  | number a =>
      cases w with
      | number b =>
          obtain ⟨htext, hrest⟩ := chars_cancel a.chars b.chars hr hs h
          exact ⟨congrArg Json.number (Token.ext_text htext), hrest⟩
      | _ => cases hkind
  | string a =>
      cases w with
      | string b =>
          obtain ⟨rfl, hrest⟩ := quoted_cancel h
          exact ⟨rfl, hrest⟩
      | _ => cases hkind
  | array vs =>
      cases w with
      | array ws =>
          obtain ⟨rfl, hrest⟩ := itemsText_cancel level vs ws r s (itemsText_of_array h)
          exact ⟨rfl, hrest⟩
      | _ => cases hkind
  | object es =>
      cases w with
      | object fs =>
          obtain ⟨rfl, hrest⟩ := entriesText_cancel level es fs r s (entriesText_of_object h)
          exact ⟨rfl, hrest⟩
      | _ => cases hkind

theorem itemsText_cancel (level : ℕ) (vs ws : List Json) (r s : List Char)
    (h : itemsText level vs ++ r = itemsText level ws ++ s) : vs = ws ∧ r = s := by
  cases vs with
  | nil =>
      cases ws with
      | nil => exact ⟨rfl, List.append_cancel_left h⟩
      | cons w ws => exact absurd (List.head_eq_of_cons_eq h) (by decide)
  | cons v vs =>
      cases ws with
      | nil => exact absurd (List.head_eq_of_cons_eq h) (by decide)
      | cons w ws =>
          simp only [itemsText, List.cons_append, List.append_assoc] at h
          obtain ⟨rfl, hitems⟩ := text_cancel (level + 1) v w _ _ (ends_itemsText level vs r)
            (ends_itemsText level ws s) (List.append_cancel_left (List.tail_eq_of_cons_eq h))
          obtain ⟨rfl, hrest⟩ := itemsText_cancel level vs ws r s hitems
          exact ⟨rfl, hrest⟩

theorem entriesText_cancel (level : ℕ) (es fs : List (String × Json)) (r s : List Char)
    (h : entriesText level es ++ r = entriesText level fs ++ s) : es = fs ∧ r = s := by
  cases es with
  | nil =>
      cases fs with
      | nil => exact ⟨rfl, List.append_cancel_left h⟩
      | cons f fs => exact absurd (List.head_eq_of_cons_eq h) (by decide)
  | cons e es =>
      cases fs with
      | nil => exact absurd (List.head_eq_of_cons_eq h) (by decide)
      | cons f fs =>
          obtain ⟨k, v⟩ := e
          obtain ⟨k', w⟩ := f
          simp only [entriesText, List.cons_append, List.append_assoc] at h
          obtain ⟨rfl, hvalue⟩ :=
            quoted_cancel (List.append_cancel_left (List.tail_eq_of_cons_eq h))
          obtain ⟨rfl, hentries⟩ := text_cancel (level + 1) v w _ _ (ends_entriesText level es r)
            (ends_entriesText level fs s) (List.append_cancel_left hvalue)
          obtain ⟨rfl, hrest⟩ := entriesText_cancel level es fs r s hentries
          exact ⟨rfl, hrest⟩

end

theorem dumps_injective : Function.Injective dumps := by
  intro v w h
  have hends : Ends [] := fun c hc => absurd hc (by simp)
  have htext : text 0 v ++ [] = text 0 w ++ [] := congrArg (· ++ []) (String.ofList_injective h)
  exact (text_cancel 0 v w [] [] hends hends htext).1

/-! ### ASCII -/

def Ascii (cs : List Char) : Prop := ∀ c ∈ cs, c.toNat < 128

instance (cs : List Char) : Decidable (Ascii cs) :=
  decidable_of_iff (cs.all (fun c => c.toNat < 128) = true) (by simp [Ascii])

theorem Ascii.cons {c : Char} {cs : List Char} (hc : c.toNat < 128) (h : Ascii cs) :
    Ascii (c :: cs) :=
  List.forall_mem_cons.mpr ⟨hc, h⟩

theorem Ascii.append {as bs : List Char} (ha : Ascii as) (hb : Ascii bs) : Ascii (as ++ bs) :=
  List.forall_mem_append.mpr ⟨ha, hb⟩

theorem ascii_numeralChars : Ascii numeralChars := by decide

theorem ascii_unicodeEscape (n : ℕ) : Ascii (unicodeEscape n) := by
  have hdigit : ∀ n < 16, (hexDigit n).toNat < 128 := by decide
  simp only [Ascii, unicodeEscape, List.forall_mem_cons, List.not_mem_nil, false_implies,
    implies_true, and_true]
  exact ⟨by decide, by decide, hdigit _ (Nat.mod_lt _ (by decide)),
    hdigit _ (Nat.mod_lt _ (by decide)), hdigit _ (Nat.mod_lt _ (by decide)),
    hdigit _ (Nat.mod_lt _ (by decide))⟩

theorem ascii_escape (c : Char) : Ascii (escape c) := by
  unfold escape
  split
  case h_1 e he =>
    obtain ⟨before, after, heq, -⟩ := List.lookup_eq_some_iff.mp he
    have hshort : ∀ pair ∈ shortEscapes, pair.2.toNat < 128 := forall_mem_of_all (by decide)
    have hmem : (c, e) ∈ shortEscapes := heq ▸ List.mem_append_right _ List.mem_cons_self
    exact Ascii.cons (by decide) (Ascii.cons (hshort _ hmem) (by decide))
  case h_2 hnone =>
    split_ifs with hplain
    · exact Ascii.cons (by omega) (by decide)
    · exact ascii_unicodeEscape _
    · exact (ascii_unicodeEscape _).append (ascii_unicodeEscape _)

theorem ascii_quoted (s : String) : Ascii (quoted s) := by
  refine Ascii.cons (by decide) (Ascii.append ?_ (by decide))
  intro c hc
  obtain ⟨d, -, hd⟩ := List.mem_flatMap.mp hc
  exact ascii_escape d c hd

theorem ascii_newline (level : ℕ) : Ascii (newline level) := by
  refine Ascii.cons (by decide) fun c hc => ?_
  rw [(List.mem_replicate.mp hc).2]
  decide

mutual

theorem ascii_text (level : ℕ) (v : Json) : Ascii (text level v) := by
  cases v with
  | null =>
      rw [text]
      decide
  | bool b =>
      cases b
      all_goals
        rw [text]
        decide
  | number token => exact fun c hc => ascii_numeralChars c (token.chars c hc)
  | string s => exact ascii_quoted s
  | array vs =>
      cases vs with
      | nil =>
          rw [text]
          decide
      | cons v vs =>
          rw [text]
          exact Ascii.cons (by decide) ((ascii_newline _).append
            ((ascii_text (level + 1) v).append (ascii_itemsText level vs)))
  | object es =>
      cases es with
      | nil =>
          rw [text]
          decide
      | cons e es =>
          rw [text]
          exact Ascii.cons (by decide) ((ascii_newline _).append ((ascii_quoted _).append
            (Ascii.append (by decide)
              ((ascii_text (level + 1) e.2).append (ascii_entriesText level es)))))

theorem ascii_itemsText (level : ℕ) (vs : List Json) : Ascii (itemsText level vs) := by
  cases vs with
  | nil => exact (ascii_newline level).append (by decide)
  | cons v vs =>
      rw [itemsText]
      exact Ascii.cons (by decide) ((ascii_newline _).append
        ((ascii_text (level + 1) v).append (ascii_itemsText level vs)))

theorem ascii_entriesText (level : ℕ) (es : List (String × Json)) :
    Ascii (entriesText level es) := by
  cases es with
  | nil => exact (ascii_newline level).append (by decide)
  | cons e es =>
      rw [entriesText]
      exact Ascii.cons (by decide) ((ascii_newline _).append ((ascii_quoted _).append
        (Ascii.append (by decide)
          ((ascii_text (level + 1) e.2).append (ascii_entriesText level es)))))

end

/-! ### Numbers -/

theorem mem_digits_of_isDigit {c : Char} (h : c.isDigit = true) : c ∈ "0123456789".toList := by
  have hrange : 48 ≤ c.toNat ∧ c.toNat ≤ 57 := Char.isDigit_iff_toNat.mp h
  have hdigits : ∀ n, 48 ≤ n → n ≤ 57 → Char.ofNat n ∈ "0123456789".toList := by
    intro n hlow hhigh
    interval_cases n <;> decide
  rw [← Char.ofNat_toNat c]
  exact hdigits c.toNat hrange.1 hrange.2

theorem exists_repr_cons (n : ℕ) : ∃ c rest, n.repr.toList = c :: rest ∧
    c ∈ "0123456789".toList ∧ ∀ d ∈ rest, d ∈ "0123456789".toList := by
  have hdigits : ∀ c ∈ n.repr.toList, c ∈ "0123456789".toList := by
    rw [Nat.toList_repr]
    exact fun c hc =>
      mem_digits_of_isDigit (Nat.isDigit_of_mem_toDigits (by decide) (by decide) hc)
  have hne : n.repr.toList ≠ [] := by
    rw [Nat.toList_repr]
    exact Nat.toDigits_ne_nil
  obtain ⟨c, rest, heq⟩ := List.exists_cons_of_ne_nil hne
  rw [heq] at hdigits
  exact ⟨c, rest, heq, List.forall_mem_cons.mp hdigits⟩

/-- Digits, with a sign in front when the number is negative. -/
theorem toList_toString (n : ℤ) : (toString n).toList =
    if 0 ≤ n then n.toNat.repr.toList else '-' :: (-n).toNat.repr.toList := by
  rw [Int.toString_eq_repr, Int.repr_eq_if]
  split_ifs
  · rfl
  · exact String.toList_append

theorem integer_chars (n : ℤ) : ∀ c ∈ (toString n).toList, c ∈ "-0123456789".toList := by
  have hdigits : ∀ c ∈ "0123456789".toList, c ∈ "-0123456789".toList :=
    forall_mem_of_all (by decide)
  rw [toList_toString]
  split_ifs
  · obtain ⟨c, rest, heq, hc, hrest⟩ := exists_repr_cons n.toNat
    rw [heq]
    exact List.forall_mem_cons.mpr ⟨hdigits c hc, fun d hd => hdigits d (hrest d hd)⟩
  · obtain ⟨c, rest, heq, hc, hrest⟩ := exists_repr_cons (-n).toNat
    rw [heq]
    exact List.forall_mem_cons.mpr ⟨by decide, List.forall_mem_cons.mpr
      ⟨hdigits c hc, fun d hd => hdigits d (hrest d hd)⟩⟩

theorem integer_subset : ∀ c ∈ "-0123456789".toList,
    c ∈ "+-.0123456789IN".toList ∧ c ∈ numeralChars :=
  forall_mem_of_all (by decide)

/-- `int.__repr__`. -/
def Token.ofInt (n : ℤ) : Token where
  text := (toString n).toList
  starts := by
    have hne : (toString n).toList ≠ [] := by
      rw [toList_toString]
      split_ifs
      · obtain ⟨c, rest, heq, -⟩ := exists_repr_cons n.toNat
        rw [heq]
        exact List.cons_ne_nil c rest
      · exact List.cons_ne_nil _ _
    obtain ⟨c, rest, heq⟩ := List.exists_cons_of_ne_nil hne
    rw [heq]
    exact ⟨c, rfl, (integer_subset c (integer_chars n c (heq ▸ List.mem_cons_self))).1⟩
  chars c hc := (integer_subset c (integer_chars n c hc)).2

theorem repr_injective {n m : ℕ} (h : n.repr.toList = m.repr.toList) : n = m := by
  rw [Nat.toList_repr, Nat.toList_repr] at h
  have hnat := congrArg (fun digits => Nat.ofDigitChars 10 digits 0) h
  simpa only [Nat.ofDigitChars_ten_toDigits] using hnat

theorem Token.ofInt_injective : Function.Injective Token.ofInt := by
  intro n m h
  have htext : (toString n).toList = (toString m).toList := congrArg Token.text h
  rw [toList_toString, toList_toString] at htext
  have hsign (k : ℕ) (rest : List Char) : k.repr.toList ≠ '-' :: rest := by
    intro heq
    obtain ⟨c, rest', heq', hc, -⟩ := exists_repr_cons k
    rw [heq', List.cons.injEq] at heq
    rw [heq.1] at hc
    exact absurd hc (by decide)
  split_ifs at htext with hn hm hm
  · have := repr_injective htext
    omega
  · exact absurd htext (hsign _ _)
  · exact absurd htext.symm (hsign _ _)
  · have := repr_injective (List.tail_eq_of_cons_eq htext)
    omega

/-- What `inf` is written as. -/
def Token.infinity : Token :=
  ⟨"Infinity".toList, ⟨'I', rfl, by decide⟩, forall_mem_of_all (by decide)⟩

end JsonText
