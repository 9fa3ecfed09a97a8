import Mathlib.Data.List.Basic

/-!
# JSON

Values, their compact texts, and a reader of compact texts. Integers and other numbers are
different tokens; how the others are written is a parameter.

* `parse_write` — a compact text is read back, whatever follows it
* `write_append_eq` — the text of a value that is no number begins no other text
* `read_write` — the reader takes what the writer makes
* `read_eq_some` — and nothing else
* `printable_of_mem_write` — plain strings make a plain text
-/

namespace Infra

inductive Json (R : Type) where
  | null
  | bool (b : Bool)
  | int (n : Int)
  | float (x : R)
  | string (s : String)
  | array (xs : List (Json R))
  | object (fields : List (String × Json R))

namespace Json

/-! ## Writing -/

/-- The characters written with a backslash, and what follows it. -/
def escapes : List (Char × Char) :=
  [('"', '"'), ('\\', '\\'), ('\x08', 'b'), ('\x0C', 'f'), ('\n', 'n'), ('\r', 'r'), ('\t', 't')]

def escape (c : Char) : List Char :=
  match escapes.lookup c with
  | some e => ['\\', e]
  | none =>
    if c.toNat < 32 then
      ['\\', 'u', '0', '0', (c.toNat / 16).digitChar, (c.toNat % 16).digitChar]
    else [c]

def quote (s : String) : List Char := '"' :: (s.toList.flatMap escape ++ ['"'])

section

variable {R : Type} (number : R → List Char)

mutual

/-- The compact text of a value. -/
def write : Json R → List Char
  | .null => ['n', 'u', 'l', 'l']
  | .bool true => ['t', 'r', 'u', 'e']
  | .bool false => ['f', 'a', 'l', 's', 'e']
  | .int n => (toString n).toList
  | .float x => number x
  | .string s => quote s
  | .array [] => ['[', ']']
  | .array (x :: xs) => '[' :: (write x ++ writeElems xs)
  | .object [] => ['{', '}']
  | .object ((key, x) :: fields) => '{' :: (quote key ++ ':' :: (write x ++ writeFields fields))

/-- The elements after the first, and the bracket that ends them. -/
def writeElems : List (Json R) → List Char
  | [] => [']']
  | x :: xs => ',' :: (write x ++ writeElems xs)

/-- The fields after the first, and the brace that ends them. -/
def writeFields : List (String × Json R) → List Char
  | [] => ['}']
  | (key, x) :: fields => ',' :: (quote key ++ ':' :: (write x ++ writeFields fields))

end

end

/-! ## Reading -/

/-- The characters of a number. -/
def numeral (c : Char) : Bool := c.isDigit || ['-', '+', '.', 'e', 'E'].contains c

/-- The characters of an integer. -/
def integral (c : Char) : Bool := c.isDigit || c == '-'

def readInt : List Char → Option Int
  | '-' :: digits =>
    if digits ≠ [] ∧ digits.all Char.isDigit then some (-Nat.ofDigitChars 10 digits 0) else none
  | digits =>
    if digits ≠ [] ∧ digits.all Char.isDigit then some (Nat.ofDigitChars 10 digits 0) else none

/-- The value of a lower-case hexadecimal digit. -/
def hexValue (c : Char) : Option Nat := (List.range 16).find? fun n => n.digitChar == c

/-- A string from behind its first quote on, and what follows it. -/
def parseString : List Char → Option (List Char × List Char)
  | [] => none
  | '"' :: rest => some ([], rest)
  | '\\' :: 'u' :: '0' :: '0' :: high :: low :: rest =>
    match hexValue high, hexValue low with
    | some high, some low =>
      (parseString rest).map fun p => (Char.ofNat (16 * high + low) :: p.1, p.2)
    | _, _ => none
  | '\\' :: e :: rest =>
    match escapes.find? fun p => p.2 == e with
    | some (c, _) => (parseString rest).map fun p => (c :: p.1, p.2)
    | none => none
  | c :: rest => (parseString rest).map fun p => (c :: p.1, p.2)

/-- The key of a field and its colon. -/
def parseKey : List Char → Option (String × List Char)
  | '"' :: rest =>
    match parseString rest with
    | some (key, ':' :: rest) => some (String.ofList key, rest)
    | _ => none
  | _ => none

/-- What follows a word. -/
def expect (word cs : List Char) : Option (List Char) :=
  if word.isPrefixOf cs then some (cs.drop word.length) else none

section

variable {R : Type} (float : List Char → Option R)

def readNumber (token : List Char) : Option (Json R) :=
  if token.all integral then (readInt token).map .int else (float token).map .float

mutual

/-- A value, and what follows it. -/
def parse : Nat → List Char → Option (Json R × List Char)
  | 0, _ => none
  | _, [] => none
  | fuel + 1, c :: rest =>
    if c = 'n' then (expect ['u', 'l', 'l'] rest).map fun rest => (.null, rest)
    else if c = 't' then (expect ['r', 'u', 'e'] rest).map fun rest => (.bool true, rest)
    else if c = 'f' then (expect ['a', 'l', 's', 'e'] rest).map fun rest => (.bool false, rest)
    else if c = '"' then (parseString rest).map fun p => (.string (String.ofList p.1), p.2)
    else if c = '[' then
      if rest.head? = some ']' then some (.array [], rest.tail)
      else
        match parse fuel rest with
        | none => none
        | some (x, rest) => (parseElems fuel rest).map fun p => (.array (x :: p.1), p.2)
    else if c = '{' then
      if rest.head? = some '}' then some (.object [], rest.tail)
      else
        match parseKey rest with
        | none => none
        | some (key, rest) =>
          match parse fuel rest with
          | none => none
          | some (x, rest) =>
            (parseFields fuel rest).map fun p => (.object ((key, x) :: p.1), p.2)
    else
      (readNumber float ((c :: rest).takeWhile numeral)).map fun x =>
        (x, (c :: rest).dropWhile numeral)

def parseElems : Nat → List Char → Option (List (Json R) × List Char)
  | 0, _ => none
  | _, [] => none
  | fuel + 1, c :: rest =>
    if c = ']' then some ([], rest)
    else if c = ',' then
      match parse fuel rest with
      | none => none
      | some (x, rest) => (parseElems fuel rest).map fun p => (x :: p.1, p.2)
    else none

def parseFields : Nat → List Char → Option (List (String × Json R) × List Char)
  | 0, _ => none
  | _, [] => none
  | fuel + 1, c :: rest =>
    if c = '}' then some ([], rest)
    else if c = ',' then
      match parseKey rest with
      | none => none
      | some (key, rest) =>
        match parse fuel rest with
        | none => none
        | some (x, rest) => (parseFields fuel rest).map fun p => ((key, x) :: p.1, p.2)
    else none

end

/-- A reader of compact texts alone. -/
def read (number : R → List Char) (cs : List Char) : Option (Json R) :=
  match parse float (cs.length + 1) cs with
  | some (x, []) => if write number x = cs then some x else none
  | _ => none

end

/-! ## Strings -/

theorem hexValue_digitChar {n : Nat} (h : n < 16) : hexValue n.digitChar = some n := by
  have hall : ∀ n < 16, hexValue n.digitChar = some n := by decide
  exact hall n h

/-- What an escape says is read back. -/
theorem find_of_lookup {c e : Char} (h : escapes.lookup c = some e) :
    escapes.find? (fun p => p.2 == e) = some (c, e) ∧ e ≠ 'u' := by
  have hmem : (c, e) ∈ escapes := by
    rw [List.lookup_eq_some_iff] at h
    obtain ⟨before, after, hsplit, -⟩ := h
    rw [hsplit]
    exact List.mem_append_right _ List.mem_cons_self
  have hall : ∀ p ∈ escapes, escapes.find? (fun q => q.2 == p.2) = some p ∧ p.2 ≠ 'u' := by decide
  exact hall (c, e) hmem

theorem parseString_escape (c : Char) (rest : List Char) :
    parseString (escape c ++ rest) = (parseString rest).map fun p => (c :: p.1, p.2) := by
  unfold escape
  split
  · next e he =>
    obtain ⟨hfind, hu⟩ := find_of_lookup he
    rw [List.cons_append, List.singleton_append, parseString, hfind]
    intro high low rest' heq
    exact absurd heq hu
  · next hnone =>
    split
    · next hlt =>
      have hhigh := hexValue_digitChar (show c.toNat / 16 < 16 by omega)
      have hlow := hexValue_digitChar (show c.toNat % 16 < 16 by omega)
      have hback : Char.ofNat (16 * (c.toNat / 16) + c.toNat % 16) = c := by
        rw [Nat.div_add_mod, Char.ofNat_toNat]
      simp only [List.cons_append, List.nil_append]
      rw [parseString]
      simp only [hhigh, hlow, hback]
    · have hquote : c ≠ '"' := by
        rintro rfl
        cases hnone
      have hslash : c ≠ '\\' := by
        rintro rfl
        cases hnone
      rw [List.singleton_append, parseString]
      · exact hquote
      · intro high low rest' heq
        exact absurd heq hslash
      · intro e rest' heq
        exact absurd heq hslash

theorem parseString_flatMap (cs rest : List Char) :
    parseString (cs.flatMap escape ++ '"' :: rest) = some (cs, rest) := by
  induction cs with
  | nil => rfl
  | cons c cs ih =>
    rw [List.flatMap_cons, List.append_assoc, parseString_escape, ih]
    rfl

theorem parseKey_quote (key : String) (rest : List Char) :
    parseKey (quote key ++ ':' :: rest) = some (key, rest) := by
  rw [quote, List.cons_append, List.append_assoc, List.singleton_append, parseKey]
  rw [parseString_flatMap]
  show some (String.ofList key.toList, rest) = _
  rw [String.ofList_toList]

/-! ## Numbers -/

theorem toList_toString_int (n : Int) :
    (toString n).toList =
      if n < 0 then '-' :: Nat.toDigits 10 n.natAbs else Nat.toDigits 10 n.natAbs := by
  cases n with
  | ofNat m =>
    rw [if_neg (by simp)]
    exact Nat.toList_repr
  | negSucc m =>
    rw [if_pos (Int.negSucc_lt_zero m)]
    show ("-" ++ Nat.repr (m + 1)).toList = _
    rw [String.toList_append, Nat.toList_repr]
    rfl

theorem readInt_toString (n : Int) : readInt (toString n).toList = some n := by
  have hdigits : (Nat.toDigits 10 n.natAbs).all Char.isDigit = true :=
    List.all_eq_true.mpr fun c hc => Nat.isDigit_of_mem_toDigits (by decide) (by decide) hc
  have hcond : Nat.toDigits 10 n.natAbs ≠ [] ∧ (Nat.toDigits 10 n.natAbs).all Char.isDigit = true :=
    ⟨Nat.toDigits_ne_nil, hdigits⟩
  rw [toList_toString_int]
  split
  · rw [readInt, if_pos hcond, Nat.ofDigitChars_ten_toDigits]
    exact congrArg some (by omega)
  · rw [readInt, if_pos hcond, Nat.ofDigitChars_ten_toDigits]
    · exact congrArg some (by omega)
    · intro digits heq
      rw [heq, List.all_cons] at hdigits
      cases hdigits

theorem integral_of_mem_toString {n : Int} {c : Char} (h : c ∈ (toString n).toList) :
    integral c = true := by
  have hdigit : ∀ {c}, c ∈ Nat.toDigits 10 n.natAbs → integral c = true := fun hc => by
    simp [integral, Nat.isDigit_of_mem_toDigits (by decide) (by decide) hc]
  rw [toList_toString_int] at h
  split at h
  · rcases List.mem_cons.mp h with rfl | h
    · rfl
    · exact hdigit h
  · exact hdigit h

theorem numeral_of_integral {c : Char} (h : integral c = true) : numeral c = true := by
  unfold integral at h
  unfold numeral
  rcases Bool.or_eq_true_iff.mp h with h | h
  · rw [h, Bool.true_or]
  · rw [eq_of_beq h]
    rfl

/-- How numbers other than integers are written and read. -/
structure IsNumberText {R : Type} (number : R → List Char) (float : List Char → Option R) :
    Prop where
  read : ∀ x, float (number x) = some x
  numeral : ∀ x, ∀ c ∈ number x, numeral c = true
  /-- A point or an exponent tells it from an integer. -/
  marked : ∀ x, ¬ ∀ c ∈ number x, integral c = true

/-- No number goes on here. -/
def Stops (rest : List Char) : Prop := ∀ c ∈ rest.head?, numeral c = false

def isNumber {R : Type} : Json R → Bool
  | .int _ => true
  | .float _ => true
  | _ => false

section

variable {R : Type} {number : R → List Char} {float : List Char → Option R}

theorem numeral_of_isNumber (htext : IsNumberText number float) {x : Json R}
    (h : x.isNumber = true) : ∀ c ∈ write number x, numeral c = true := by
  cases x with
  | int n => exact fun c hc => numeral_of_integral (integral_of_mem_toString hc)
  | float x => exact htext.numeral x
  | _ => cases h

theorem readNumber_write (htext : IsNumberText number float) {x : Json R}
    (h : x.isNumber = true) : readNumber float (write number x) = some x := by
  unfold readNumber
  cases x with
  | int n =>
    have hall : (write number (.int n)).all integral = true :=
      List.all_eq_true.mpr fun c hc => integral_of_mem_toString hc
    rw [if_pos hall, write, readInt_toString]
    rfl
  | float x =>
    rw [write, if_neg fun hall => htext.marked x (List.all_eq_true.mp hall), htext.read]
    rfl
  | _ => cases h

theorem write_ne_nil (htext : IsNumberText number float) (x : Json R) : write number x ≠ [] := by
  intro hnil
  cases x with
  | int n =>
    have hback := readInt_toString n
    rw [show (toString n).toList = [] from hnil] at hback
    cases hback
  | float x =>
    refine htext.marked x fun c hc => ?_
    rw [show number x = [] from hnil] at hc
    cases hc
  | bool b => cases b <;> cases hnil
  | array xs => cases xs <;> cases hnil
  | object fields => cases fields <;> cases hnil
  | _ => cases hnil

/-! ## The round trip -/

theorem expect_append (word rest : List Char) : expect word (word ++ rest) = some rest := by
  rw [expect, if_pos (List.isPrefixOf_iff_prefix.mpr (List.prefix_append word rest)),
    List.drop_left]

theorem takeWhile_append_of_stops {p : Char → Bool} {token rest : List Char}
    (htoken : ∀ c ∈ token, p c = true) (hrest : ∀ c ∈ rest.head?, p c = false) :
    (token ++ rest).takeWhile p = token ∧ (token ++ rest).dropWhile p = rest := by
  rw [List.takeWhile_append_of_pos htoken, List.dropWhile_append_of_pos htoken]
  cases rest with
  | nil => exact ⟨List.append_nil token, rfl⟩
  | cons c rest =>
    have hc := hrest c rfl
    rw [List.takeWhile_cons_of_neg (by simp [hc]), List.dropWhile_cons_of_neg (by simp [hc])]
    exact ⟨List.append_nil token, rfl⟩

/-- A number is read up to what stops it. -/
theorem parse_number (htext : IsNumberText number float) {x : Json R} (h : x.isNumber = true)
    {rest : List Char} (hrest : Stops rest) (fuel : Nat) :
    parse float (fuel + 1) (write number x ++ rest) = some (x, rest) := by
  have hnumeral := numeral_of_isNumber htext h
  obtain ⟨htake, hdrop⟩ := takeWhile_append_of_stops hnumeral hrest
  have hread := readNumber_write htext h
  obtain ⟨c, cs, hcs⟩ := List.exists_cons_of_ne_nil (write_ne_nil htext x)
  rw [hcs] at htake hdrop hread hnumeral ⊢
  have hc : numeral c = true := hnumeral c List.mem_cons_self
  have hne : ∀ c', numeral c' = false → c ≠ c' := by
    rintro c' hc' rfl
    rw [hc] at hc'
    cases hc'
  rw [List.cons_append] at htake hdrop ⊢
  rw [parse, if_neg (hne 'n' (by decide)), if_neg (hne 't' (by decide)),
    if_neg (hne 'f' (by decide)), if_neg (hne '"' (by decide)), if_neg (hne '[' (by decide)),
    if_neg (hne '{' (by decide)), htake, hdrop, hread]
  rfl

/-- No value begins with a closing bracket. -/
theorem parse_bracket (fuel : Nat) (rest : List Char) :
    parse float fuel (']' :: rest) = none := by
  cases fuel with
  | zero => rfl
  | succ fuel => rfl

theorem stops_writeElems (xs : List (Json R)) (rest : List Char) :
    Stops (writeElems number xs ++ rest) := by
  cases xs with
  | nil => rintro c ⟨⟩; rfl
  | cons x xs => rintro c ⟨⟩; rfl

theorem stops_writeFields (fields : List (String × Json R)) (rest : List Char) :
    Stops (writeFields number fields ++ rest) := by
  cases fields with
  | nil => rintro c ⟨⟩; rfl
  | cons field fields => rintro c ⟨⟩; rfl

mutual

/-- **A compact text is read back**, whatever follows it; a number has to stop there. -/
theorem parse_write (htext : IsNumberText number float) : ∀ (x : Json R) (fuel : Nat)
    (rest : List Char), (write number x).length < fuel → (x.isNumber = true → Stops rest) →
    parse float fuel (write number x ++ rest) = some (x, rest)
  | _, 0, _, h, _ => absurd h (Nat.not_lt_zero _)
  | .null, fuel + 1, rest, _, _ => by
    rw [write, List.cons_append, parse, if_pos rfl, expect_append]
    rfl
  | .bool true, fuel + 1, rest, _, _ => by
    rw [write, List.cons_append, parse, if_neg (by decide), if_pos rfl, expect_append]
    rfl
  | .bool false, fuel + 1, rest, _, _ => by
    rw [write, List.cons_append, parse, if_neg (by decide), if_neg (by decide), if_pos rfl,
      expect_append]
    rfl
  | .int n, fuel + 1, rest, _, hrest => parse_number htext rfl (hrest rfl) fuel
  | .float x, fuel + 1, rest, _, hrest => parse_number htext rfl (hrest rfl) fuel
  | .string s, fuel + 1, rest, _, _ => by
    rw [write, quote, List.cons_append, List.append_assoc, List.singleton_append, parse,
      if_neg (by decide), if_neg (by decide), if_neg (by decide), if_pos rfl, parseString_flatMap]
    show some (Json.string (String.ofList s.toList), rest) = _
    rw [String.ofList_toList]
  | .array [], fuel + 1, rest, _, _ => rfl
  | .array (x :: xs), fuel + 1, rest, h, _ => by
    rw [write, List.length_cons, List.length_append] at h
    have hx := parse_write htext x fuel (writeElems number xs ++ rest) (by omega)
      fun _ => stops_writeElems xs rest
    have hxs := parseElems_write htext xs fuel rest (by omega)
    have hopen : (write number x ++ (writeElems number xs ++ rest)).head? ≠ some ']' := by
      intro hhead
      rw [← List.cons_head?_tail hhead, parse_bracket] at hx
      cases hx
    rw [write, List.cons_append, List.append_assoc, parse, if_neg (by decide), if_neg (by decide),
      if_neg (by decide), if_neg (by decide), if_pos rfl, if_neg hopen, hx]
    dsimp only
    rw [hxs]
    rfl
  | .object [], fuel + 1, rest, _, _ => rfl
  | .object ((key, x) :: fields), fuel + 1, rest, h, _ => by
    rw [write, List.length_cons, List.length_append, List.length_cons, List.length_append] at h
    have hx := parse_write htext x fuel (writeFields number fields ++ rest) (by omega)
      fun _ => stops_writeFields fields rest
    have hfields := parseFields_write htext fields fuel rest (by omega)
    have hkey := parseKey_quote key (write number x ++ (writeFields number fields ++ rest))
    rw [write, List.cons_append, List.append_assoc, List.cons_append, List.append_assoc, parse,
      if_neg (by decide), if_neg (by decide), if_neg (by decide), if_neg (by decide),
      if_neg (by decide), if_pos rfl, if_neg (by simp [quote]), hkey]
    dsimp only
    rw [hx]
    dsimp only
    rw [hfields]
    rfl

theorem parseElems_write (htext : IsNumberText number float) : ∀ (xs : List (Json R)) (fuel : Nat)
    (rest : List Char), (writeElems number xs).length < fuel →
    parseElems float fuel (writeElems number xs ++ rest) = some (xs, rest)
  | _, 0, _, h => absurd h (Nat.not_lt_zero _)
  | [], fuel + 1, rest, _ => rfl
  | x :: xs, fuel + 1, rest, h => by
    rw [writeElems, List.length_cons, List.length_append] at h
    have hx := parse_write htext x fuel (writeElems number xs ++ rest) (by omega)
      fun _ => stops_writeElems xs rest
    have hxs := parseElems_write htext xs fuel rest (by omega)
    rw [writeElems, List.cons_append, List.append_assoc, parseElems, if_neg (by decide), if_pos rfl,
      hx]
    dsimp only
    rw [hxs]
    rfl

theorem parseFields_write (htext : IsNumberText number float) :
    ∀ (fields : List (String × Json R)) (fuel : Nat) (rest : List Char),
    (writeFields number fields).length < fuel →
    parseFields float fuel (writeFields number fields ++ rest) = some (fields, rest)
  | _, 0, _, h => absurd h (Nat.not_lt_zero _)
  | [], fuel + 1, rest, _ => rfl
  | (key, x) :: fields, fuel + 1, rest, h => by
    rw [writeFields, List.length_cons, List.length_append, List.length_cons,
      List.length_append] at h
    have hx := parse_write htext x fuel (writeFields number fields ++ rest) (by omega)
      fun _ => stops_writeFields fields rest
    have hfields := parseFields_write htext fields fuel rest (by omega)
    have hkey := parseKey_quote key (write number x ++ (writeFields number fields ++ rest))
    rw [writeFields, List.cons_append, List.append_assoc, List.cons_append, List.append_assoc,
      parseFields, if_neg (by decide), if_pos rfl, hkey]
    dsimp only
    rw [hx]
    dsimp only
    rw [hfields]
    rfl

end

theorem stops_nil : Stops [] := by
  intro c hc
  cases hc

theorem parse_write_nil (htext : IsNumberText number float) (x : Json R) :
    parse float ((write number x).length + 1) (write number x) = some (x, []) := by
  have hx := parse_write htext x _ [] (Nat.lt_succ_self _) fun _ => stops_nil
  rwa [List.append_nil] at hx

/-- **No text of a value that is no number begins another text.** -/
theorem write_append_eq (htext : IsNumberText number float) {x y : Json R}
    (hx : x.isNumber = false) {rest : List Char} (h : write number x ++ rest = write number y) :
    rest = [] := by
  have hparse := parse_write htext x ((write number y).length + 1) rest
    (by rw [← h, List.length_append]; omega) (by simp [hx])
  rw [h, parse_write_nil htext y] at hparse
  exact (Prod.mk.inj (Option.some.inj hparse)).2.symm

/-- **The reader takes what the writer makes.** -/
theorem read_write (htext : IsNumberText number float) (x : Json R) :
    read float number (write number x) = some x := by
  rw [read, parse_write_nil htext x]
  exact if_pos rfl

/-- **The reader takes nothing else.** -/
theorem read_eq_some {cs : List Char} {x : Json R} (h : read float number cs = some x) :
    write number x = cs := by
  unfold read at h
  split at h
  · split at h
    · next heq =>
      rw [← Option.some.inj h]
      exact heq
    · cases h
  · cases h

/-- The text of an object is in braces. -/
theorem write_object (fields : List (String × Json R)) :
    ∃ inner, write number (.object fields) = '{' :: (inner ++ ['}']) := by
  have hends : ∀ fields : List (String × Json R),
      ∃ inner, writeFields number fields = inner ++ ['}'] := by
    intro fields
    induction fields with
    | nil => exact ⟨[], rfl⟩
    | cons field fields ih =>
      obtain ⟨inner, hinner⟩ := ih
      refine ⟨',' :: (quote field.1 ++ ':' :: (write number field.2 ++ inner)), ?_⟩
      rw [writeFields, hinner]
      simp
  cases fields with
  | nil => exact ⟨[], rfl⟩
  | cons field fields =>
    obtain ⟨inner, hinner⟩ := hends fields
    refine ⟨quote field.1 ++ ':' :: (write number field.2 ++ inner), ?_⟩
    rw [write, hinner]
    simp

/-- The text of a value that is no number does not begin as one. -/
theorem isNumber_eq_false (htext : IsNumberText number float) {x : Json R} {c : Char}
    (hc : numeral c = false) (h : c ∈ write number x) : x.isNumber = false := by
  rw [Bool.eq_false_iff]
  intro hx
  rw [numeral_of_isNumber htext hx c h] at hc
  cases hc

end

/-! ## Plain texts -/

def printable (c : Char) : Bool := 32 ≤ c.toNat && c.toNat < 127

/-- A string is plain if it is written as it is, in printable ASCII. -/
def plain (s : String) : Bool := s.toList.all fun c => printable c && escape c == [c]

theorem flatMap_escape {s : String} (h : plain s = true) : s.toList.flatMap escape = s.toList := by
  unfold plain at h
  generalize s.toList = cs at h
  induction cs with
  | nil => rfl
  | cons c cs ih =>
    rw [List.all_cons, Bool.and_eq_true, Bool.and_eq_true] at h
    rw [List.flatMap_cons, eq_of_beq h.1.2, ih h.2]
    rfl

theorem length_quote {s : String} (h : plain s = true) :
    (quote s).length = s.toList.length + 2 := by
  rw [quote, List.length_cons, List.length_append, flatMap_escape h]
  rfl

theorem printable_of_mem_quote {s : String} (h : plain s = true) {c : Char} (hc : c ∈ quote s) :
    printable c = true := by
  rw [quote, flatMap_escape h] at hc
  rcases List.mem_cons.mp hc with rfl | hc
  · rfl
  · rcases List.mem_append.mp hc with hc | hc
    · exact (Bool.and_eq_true _ _ ▸ List.all_eq_true.mp h c hc).1
    · rw [List.mem_singleton.mp hc]
      rfl

section

variable {R : Type}

mutual

/-- Whether the strings of a value are plain, its keys included. -/
def allPlain : Json R → Bool
  | .string s => plain s
  | .array xs => allPlainElems xs
  | .object fields => allPlainFields fields
  | .null => true
  | .bool _ => true
  | .int _ => true
  | .float _ => true

def allPlainElems : List (Json R) → Bool
  | [] => true
  | x :: xs => allPlain x && allPlainElems xs

def allPlainFields : List (String × Json R) → Bool
  | [] => true
  | (key, x) :: fields => plain key && (allPlain x && allPlainFields fields)

end

theorem allPlainElems_eq (xs : List (Json R)) : allPlainElems xs = xs.all allPlain := by
  induction xs with
  | nil => rfl
  | cons x xs ih => rw [allPlainElems, List.all_cons, ih]

theorem printable_of_numeral {c : Char} (h : numeral c = true) : printable c = true := by
  unfold numeral at h
  rcases Bool.or_eq_true_iff.mp h with h | h
  · unfold Char.isDigit at h
    rw [Bool.and_eq_true, decide_eq_true_eq, decide_eq_true_eq] at h
    have hlow : 48 ≤ c.toNat := h.1
    have hhigh : c.toNat ≤ 57 := h.2
    simp only [printable, Bool.and_eq_true, decide_eq_true_eq]
    omega
  · have hall : ['-', '+', '.', 'e', 'E'].all printable = true := by decide
    exact List.all_eq_true.mp hall c (List.contains_iff_mem.mp h)

variable {number : R → List Char}

mutual

/-- **The compact text of a value with plain strings is printable ASCII.** -/
theorem printable_of_mem_write (hnumeral : ∀ x, ∀ c ∈ number x, numeral c = true) :
    ∀ (x : Json R), allPlain x = true → ∀ c ∈ write number x, printable c = true
  | .null, _, c, hc =>
    List.all_eq_true.mp (by decide : ['n', 'u', 'l', 'l'].all printable = true) c hc
  | .bool true, _, c, hc =>
    List.all_eq_true.mp (by decide : ['t', 'r', 'u', 'e'].all printable = true) c hc
  | .bool false, _, c, hc =>
    List.all_eq_true.mp (by decide : ['f', 'a', 'l', 's', 'e'].all printable = true) c hc
  | .int n, _, c, hc => printable_of_numeral (numeral_of_integral (integral_of_mem_toString hc))
  | .float x, _, c, hc => printable_of_numeral (hnumeral x c hc)
  | .string s, h, c, hc => printable_of_mem_quote h hc
  | .array [], _, c, hc =>
    List.all_eq_true.mp (by decide : ['[', ']'].all printable = true) c hc
  | .array (x :: xs), h, c, hc => by
    rw [allPlain, allPlainElems, Bool.and_eq_true] at h
    rw [write, List.mem_cons, List.mem_append] at hc
    rcases hc with rfl | hc | hc
    · rfl
    · exact printable_of_mem_write hnumeral x h.1 c hc
    · exact printable_of_mem_writeElems hnumeral xs h.2 c hc
  | .object [], _, c, hc =>
    List.all_eq_true.mp (by decide : ['{', '}'].all printable = true) c hc
  | .object ((key, x) :: fields), h, c, hc => by
    rw [allPlain, allPlainFields, Bool.and_eq_true, Bool.and_eq_true] at h
    rw [write, List.mem_cons, List.mem_append, List.mem_cons, List.mem_append] at hc
    rcases hc with rfl | hc | rfl | hc | hc
    · rfl
    · exact printable_of_mem_quote h.1 hc
    · rfl
    · exact printable_of_mem_write hnumeral x h.2.1 c hc
    · exact printable_of_mem_writeFields hnumeral fields h.2.2 c hc

theorem printable_of_mem_writeElems (hnumeral : ∀ x, ∀ c ∈ number x, numeral c = true) :
    ∀ (xs : List (Json R)), allPlainElems xs = true →
    ∀ c ∈ writeElems number xs, printable c = true
  | [], _, c, hc => List.all_eq_true.mp (by decide : [']'].all printable = true) c hc
  | x :: xs, h, c, hc => by
    rw [allPlainElems, Bool.and_eq_true] at h
    rw [writeElems, List.mem_cons, List.mem_append] at hc
    rcases hc with rfl | hc | hc
    · rfl
    · exact printable_of_mem_write hnumeral x h.1 c hc
    · exact printable_of_mem_writeElems hnumeral xs h.2 c hc

theorem printable_of_mem_writeFields (hnumeral : ∀ x, ∀ c ∈ number x, numeral c = true) :
    ∀ (fields : List (String × Json R)), allPlainFields fields = true →
    ∀ c ∈ writeFields number fields, printable c = true
  | [], _, c, hc => List.all_eq_true.mp (by decide : ['}'].all printable = true) c hc
  | (key, x) :: fields, h, c, hc => by
    rw [allPlainFields, Bool.and_eq_true, Bool.and_eq_true] at h
    rw [writeFields, List.mem_cons, List.mem_append, List.mem_cons, List.mem_append] at hc
    rcases hc with rfl | hc | rfl | hc | hc
    · rfl
    · exact printable_of_mem_quote h.1 hc
    · rfl
    · exact printable_of_mem_write hnumeral x h.2.1 c hc
    · exact printable_of_mem_writeFields hnumeral fields h.2.2 c hc

end

end

end Json

end Infra
