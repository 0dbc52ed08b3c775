import Mathlib.Algebra.Group.Nat.Defs
import Mathlib.Data.List.Basic

/-! Tables of numbers as text.

A `Numeral` says how a value is written and read back, and of which characters. A row is
written with a separator between its values and a newline at its end. `Reader` takes such a
text character by character; from what `text` has written it gets the table again, whatever
the separator is (`read_between`). `decimal` is how `printf` writes an integer. -/
namespace Table

universe u

/-- How values are written, in characters of their own. -/
structure Numeral (α : Type u) where
  write : α → List Char
  read : List Char → α
  /-- The characters of a written value. -/
  isMark : Char → Bool
  read_write : ∀ a, read (write a) = a
  write_ne_nil : ∀ a, write a ≠ []
  isMark_write : ∀ a, ∀ c ∈ write a, isMark c = true
  newline : isMark '\n' = false

/-- Characters of no value, and no end of a line. -/
def Numeral.plain {α : Type u} (N : Numeral α) (cs : List Char) : Bool :=
  cs.all fun c => !N.isMark c && c != '\n'

theorem Numeral.plain_cons {α : Type u} {N : Numeral α} {c : Char} {rest : List Char} :
    N.plain (c :: rest) = true ↔ (N.isMark c = false ∧ c ≠ '\n') ∧ N.plain rest = true := by
  rw [Numeral.plain, List.all_cons, Bool.and_eq_true, Bool.and_eq_true, Bool.not_eq_true',
    bne_iff_ne, Numeral.plain]

/-- What stands between two values of a row. -/
structure Separator {α : Type u} (N : Numeral α) where
  chars : List Char
  ne_nil : chars ≠ []
  plain : N.plain chars = true

/-- One character. -/
def Separator.single {α : Type u} {N : Numeral α} (c : Char) (h : N.plain [c] = true) :
    Separator N := ⟨[c], List.cons_ne_nil _ _, h⟩

variable {α : Type u} {N : Numeral α} (d : Separator N)

/-! ### Writing -/

/-- The values of a row after its first. -/
def tail (row : List α) : List Char := row.flatMap fun a => d.chars ++ N.write a

def line : List α → List Char
  | [] => ['\n']
  | a :: rest => N.write a ++ tail d rest ++ ['\n']

def text (rows : List (List α)) : List Char := rows.flatMap (line d)

theorem text_append (rows more : List (List α)) :
    text d (rows ++ more) = text d rows ++ text d more := List.flatMap_append

/-- The values of a row before its last, each with the separator after it. -/
def front (row : List α) : List Char := row.flatMap fun a => N.write a ++ d.chars

theorem front_concat (row : List α) (a : α) :
    front d (row ++ [a]) = front d row ++ (N.write a ++ d.chars) := by
  rw [front, List.flatMap_append, List.flatMap_singleton, front]

/-- A row, written from either end. -/
theorem front_write (row : List α) (a : α) :
    front d row ++ N.write a ++ ['\n'] = line d (row ++ [a]) := by
  induction row with
  | nil => simp only [front, line, tail, List.flatMap_nil, List.nil_append, List.append_nil]
  | cons b rest ih =>
    have hfront : front d (b :: rest) = N.write b ++ d.chars ++ front d rest := by
      rw [front, List.flatMap_cons, front]
    rw [hfront, List.append_assoc, List.append_assoc, ← List.append_assoc (front d rest), ih]
    cases rest with
    | nil => simp only [line, tail, List.nil_append, List.cons_append, List.flatMap_cons,
        List.flatMap_nil, List.append_nil, List.append_assoc]
    | cons c rest => simp only [line, tail, List.cons_append, List.flatMap_cons, List.append_assoc]

/-! ### Reading -/

/-- The rows read, the row and the value being read. -/
structure Reader (α : Type u) where
  rows : List (List α)
  row : List α
  word : List Char

/-- The end of a value, if one is being read. -/
def Reader.close (N : Numeral α) (r : Reader α) : Reader α :=
  if r.word = [] then r else { r with row := r.row ++ [N.read r.word], word := [] }

def Reader.next (N : Numeral α) (r : Reader α) (c : Char) : Reader α :=
  if N.isMark c then { r with word := r.word ++ [c] }
  else if c = '\n' then
    { rows := r.rows ++ [(r.close N).row], row := [], word := [] }
  else r.close N

def Reader.take (N : Numeral α) (r : Reader α) (cs : List Char) : Reader α :=
  cs.foldl (Reader.next N) r

/-- The table in a text. -/
def read (N : Numeral α) (cs : List Char) : List (List α) := (Reader.take N ⟨[], [], []⟩ cs).rows

theorem take_append (r : Reader α) (a b : List Char) :
    r.take N (a ++ b) = (r.take N a).take N b := List.foldl_append

theorem take_marks (rows : List (List α)) (row : List α) (word cs : List Char)
    (h : ∀ c ∈ cs, N.isMark c = true) :
    Reader.take N ⟨rows, row, word⟩ cs = ⟨rows, row, word ++ cs⟩ := by
  induction cs generalizing word with
  | nil => rw [List.append_nil]; rfl
  | cons c rest ih =>
    have hc := h c (List.mem_cons_self ..)
    have hnext : Reader.next N ⟨rows, row, word⟩ c = ⟨rows, row, word ++ [c]⟩ := by
      rw [Reader.next, if_pos hc]
    rw [Reader.take, List.foldl_cons, hnext]
    have := ih (word ++ [c]) fun x hx => h x (List.mem_cons_of_mem _ hx)
    rw [Reader.take] at this
    rw [this, List.append_assoc, List.singleton_append]

/-- A value is taken into the word. -/
theorem take_write (rows : List (List α)) (row : List α) (a : α) :
    Reader.take N ⟨rows, row, []⟩ (N.write a) = ⟨rows, row, N.write a⟩ := by
  rw [take_marks _ _ _ _ (N.isMark_write a), List.nil_append]

theorem close_word (rows : List (List α)) (row : List α) (a : α) :
    Reader.close N ⟨rows, row, N.write a⟩ = ⟨rows, row ++ [a], []⟩ := by
  rw [Reader.close, if_neg (N.write_ne_nil a), N.read_write]

theorem close_between (rows : List (List α)) (row : List α) :
    Reader.close N ⟨rows, row, []⟩ = ⟨rows, row, []⟩ := by
  rw [Reader.close, if_pos rfl]

/-- The characters of a separator end a value, once. -/
theorem take_plain (rows : List (List α)) (row : List α) (cs : List Char)
    (h : N.plain cs = true) : Reader.take N ⟨rows, row, []⟩ cs = ⟨rows, row, []⟩ := by
  induction cs with
  | nil => rfl
  | cons c rest ih =>
    obtain ⟨⟨hmark, hline⟩, hrest⟩ := Numeral.plain_cons.mp h
    have hnext : Reader.next N ⟨rows, row, []⟩ c = ⟨rows, row, []⟩ := by
      rw [Reader.next, hmark, if_neg Bool.false_ne_true, if_neg hline, close_between]
    rw [Reader.take, List.foldl_cons, hnext]
    exact ih hrest

theorem take_separator (rows : List (List α)) (row : List α) (a : α) :
    Reader.take N ⟨rows, row, N.write a⟩ d.chars = ⟨rows, row ++ [a], []⟩ := by
  have hplain := d.plain
  cases hchars : d.chars with
  | nil => exact absurd hchars d.ne_nil
  | cons c rest =>
    rw [hchars] at hplain
    obtain ⟨⟨hmark, hline⟩, hrest⟩ := Numeral.plain_cons.mp hplain
    have hnext : Reader.next N ⟨rows, row, N.write a⟩ c = ⟨rows, row ++ [a], []⟩ := by
      rw [Reader.next, hmark, if_neg Bool.false_ne_true, if_neg hline, close_word]
    rw [Reader.take, List.foldl_cons, hnext]
    exact take_plain rows _ rest hrest

theorem take_newline (rows : List (List α)) (row : List α) (a : α) :
    Reader.take N ⟨rows, row, N.write a⟩ ['\n'] = ⟨rows ++ [row ++ [a]], [], []⟩ := by
  rw [Reader.take, List.foldl_cons, List.foldl_nil, Reader.next, N.newline,
    if_neg Bool.false_ne_true, if_pos rfl, close_word]

/-- The rest of a row, with a value of it still in the word. -/
theorem take_tail (rows : List (List α)) (row : List α) (a : α) (rest : List α) :
    Reader.take N ⟨rows, row, N.write a⟩ (tail d rest ++ ['\n']) =
      ⟨rows ++ [row ++ a :: rest], [], []⟩ := by
  induction rest generalizing row a with
  | nil => exact take_newline rows row a
  | cons b rest ih =>
    have htail : tail d (b :: rest) ++ ['\n'] =
        d.chars ++ (N.write b ++ (tail d rest ++ ['\n'])) := by
      rw [tail, List.flatMap_cons, List.append_assoc, List.append_assoc]
      rfl
    rw [htail, take_append, take_separator, take_append, take_write, ih, List.append_assoc,
      List.singleton_append]

/-- The end of a line without numbers in it. -/
theorem take_blank (rows : List (List α)) :
    Reader.take N ⟨rows, [], []⟩ ['\n'] = ⟨rows ++ [[]], [], []⟩ := by
  rw [Reader.take, List.foldl_cons, List.foldl_nil, Reader.next, N.newline,
    if_neg Bool.false_ne_true, if_pos rfl, close_between]

theorem take_line (rows : List (List α)) (row : List α) :
    Reader.take N ⟨rows, [], []⟩ (line d row) = ⟨rows ++ [row], [], []⟩ := by
  cases row with
  | nil => exact take_blank rows
  | cons a rest =>
    rw [line, List.append_assoc, take_append, take_write, take_tail]
    rfl

theorem take_text (rows more : List (List α)) :
    Reader.take N ⟨rows, [], []⟩ (text d more) = ⟨rows ++ more, [], []⟩ := by
  induction more generalizing rows with
  | nil => rw [List.append_nil]; rfl
  | cons row rest ih =>
    have htext : text d (row :: rest) = line d row ++ text d rest := List.flatMap_cons
    rw [htext, take_append, take_line, ih, List.append_assoc, List.singleton_append]

theorem take_message (rows : List (List α)) (message : List Char)
    (h : N.plain message = true) :
    Reader.take N ⟨rows, [], []⟩ (message ++ ['\n']) = ⟨rows ++ [[]], [], []⟩ := by
  rw [take_append, take_plain rows [] message h, take_blank]

/-- **What is written is read again**, between two lines without numbers. -/
theorem read_between (rows : List (List α)) {started finished : List Char}
    (hstarted : N.plain started = true) (hfinished : N.plain finished = true) :
    read N (started ++ ['\n'] ++ text d rows ++ (finished ++ ['\n'])) = [] :: rows ++ [[]] := by
  rw [read, take_append _ _ (finished ++ ['\n']), take_append _ _ (text d rows),
    take_message [] started hstarted, take_text, take_message _ finished hfinished]
  rfl

/-! ### Decimal numbers -/

def writeDecimal (n : Int) : List Char :=
  (if n < 0 then ['-'] else []) ++ Nat.toDigits 10 n.natAbs

def readDecimal : List Char → Int
  | '-' :: digits => -(Nat.ofDigitChars 10 digits 0 : Int)
  | digits => Nat.ofDigitChars 10 digits 0

theorem readDecimal_digits {digits : List Char} (h : ∀ c ∈ digits, c.isDigit = true) :
    readDecimal digits = Nat.ofDigitChars 10 digits 0 := by
  unfold readDecimal
  split
  · exact absurd (h '-' (List.mem_cons_self ..)) (by decide)
  · rfl

theorem isDigit_toDigits (n : Nat) : ∀ c ∈ Nat.toDigits 10 n, c.isDigit = true := fun _ hc =>
  Nat.isDigit_of_mem_toDigits (by decide) (by decide) hc

theorem readDecimal_writeDecimal (n : Int) : readDecimal (writeDecimal n) = n := by
  unfold writeDecimal
  split
  · rename_i hneg
    rw [List.singleton_append, readDecimal, Nat.ofDigitChars_ten_toDigits]
    omega
  · rename_i hpos
    rw [List.nil_append, readDecimal_digits (isDigit_toDigits _), Nat.ofDigitChars_ten_toDigits]
    omega

/-- `%i` and `%d`. -/
def decimal : Numeral Int where
  write := writeDecimal
  read := readDecimal
  isMark c := c == '-' || c.isDigit
  read_write := readDecimal_writeDecimal
  write_ne_nil n h := Nat.toDigits_ne_nil (List.append_eq_nil_iff.mp h).2
  isMark_write n c hc := by
    rw [Bool.or_eq_true, beq_iff_eq]
    rcases List.mem_append.mp hc with h | h
    · split at h
      · exact .inl (List.mem_singleton.mp h)
      · cases h
    · exact .inr (isDigit_toDigits _ c h)
  newline := by decide

/-! ### Decimal fractions -/

/-- A number of millionths, with its sign. -/
structure Fixed where
  negative : Bool
  millionths : Nat
deriving DecidableEq

/-- With zeros in front, as the digits behind a one. -/
def writeBehind (k r : Nat) : List Char := (Nat.toDigits 10 (10 ^ k + r)).drop 1

def writeFixed (a : Fixed) : List Char :=
  (if a.negative then ['-'] else []) ++ Nat.toDigits 10 (a.millionths / 1000000) ++
    '.' :: writeBehind 6 (a.millionths % 1000000)

/-- The whole part, and six digits behind the point. -/
def readMillionths (cs : List Char) : Nat :=
  Nat.ofDigitChars 10 (cs.takeWhile Char.isDigit) 0 * 1000000 +
    Nat.ofDigitChars 10 (cs.dropWhile Char.isDigit).tail 0

def readFixed : List Char → Fixed
  | '-' :: digits => ⟨true, readMillionths digits⟩
  | digits => ⟨false, readMillionths digits⟩

theorem writeBehind_succ (k r : Nat) :
    writeBehind (k + 1) r = writeBehind k (r / 10) ++ [Nat.digitChar (r % 10)] := by
  have hlarge : 10 ≤ 10 ^ (k + 1) + r := by
    have := Nat.pow_pos (n := k) (show 0 < 10 by decide)
    omega
  have hdiv : (10 ^ (k + 1) + r) / 10 = 10 ^ k + r / 10 := by omega
  have hmod : (10 ^ (k + 1) + r) % 10 = r % 10 := by omega
  have hne : Nat.toDigits 10 (10 ^ k + r / 10) ≠ [] := Nat.toDigits_ne_nil
  rw [writeBehind, Nat.toDigits_of_base_le (by decide) hlarge, hdiv, hmod, writeBehind,
    List.drop_append_of_le_length (List.length_pos_of_ne_nil hne)]

theorem ofDigitChars_writeBehind {k r : Nat} (h : r < 10 ^ k) :
    Nat.ofDigitChars 10 (writeBehind k r) 0 = r := by
  induction k generalizing r with
  | zero =>
    obtain rfl : r = 0 := Nat.lt_one_iff.mp h
    rfl
  | succ k ih =>
    rw [writeBehind_succ, Nat.ofDigitChars_append, ih (by omega),
      Nat.ofDigitChars_cons_digitChar_of_lt_ten (Nat.mod_lt r (by decide)), Nat.ofDigitChars_nil]
    omega

theorem readMillionths_write {n r : Nat} (h : r < 1000000) :
    readMillionths (Nat.toDigits 10 n ++ '.' :: writeBehind 6 r) = n * 1000000 + r := by
  have hdigits : ∀ c ∈ Nat.toDigits 10 n, c.isDigit = true := isDigit_toDigits n
  rw [readMillionths, List.takeWhile_append_of_pos hdigits, List.dropWhile_append_of_pos hdigits]
  have hpoint : Char.isDigit '.' = false := rfl
  rw [List.takeWhile_cons, List.dropWhile_cons, hpoint, if_neg Bool.false_ne_true,
    if_neg Bool.false_ne_true, List.append_nil, List.tail_cons, Nat.ofDigitChars_ten_toDigits,
    ofDigitChars_writeBehind h]

theorem isDigit_writeBehind (k r : Nat) : ∀ c ∈ writeBehind k r, c.isDigit = true := fun c hc =>
  isDigit_toDigits _ c (List.mem_of_mem_drop hc)

theorem readFixed_writeFixed (a : Fixed) : readFixed (writeFixed a) = a := by
  obtain ⟨negative, n⟩ := a
  have hread : readMillionths (Nat.toDigits 10 (n / 1000000) ++
      '.' :: writeBehind 6 (n % 1000000)) = n := by
    rw [readMillionths_write (Nat.mod_lt n (by decide))]
    omega
  unfold writeFixed
  cases negative with
  | true =>
    rw [if_pos rfl, List.append_assoc, List.singleton_append, readFixed, hread]
  | false =>
    rw [if_neg Bool.false_ne_true, List.nil_append]
    unfold readFixed
    split
    · rename_i digits hminus
      -- the first character is a digit
      cases hwhole : Nat.toDigits 10 (n / 1000000) with
      | nil => exact absurd hwhole Nat.toDigits_ne_nil
      | cons c rest =>
        have hdigit := isDigit_toDigits (n / 1000000) c (hwhole ▸ List.mem_cons_self)
        rw [hwhole, List.cons_append] at hminus
        cases hminus
        cases hdigit
    · rw [hread]

/-- `%f`. -/
def fixed : Numeral Fixed where
  write := writeFixed
  read := readFixed
  isMark c := c == '-' || c == '.' || c.isDigit
  read_write := readFixed_writeFixed
  write_ne_nil a h := List.cons_ne_nil _ _ (List.append_eq_nil_iff.mp h).2
  isMark_write a c hc := by
    rw [Bool.or_eq_true, Bool.or_eq_true, beq_iff_eq, beq_iff_eq]
    rcases List.mem_append.mp hc with h | h
    · rcases List.mem_append.mp h with h | h
      · split at h
        · exact .inl (.inl (List.mem_singleton.mp h))
        · cases h
      · exact .inr (isDigit_toDigits _ c h)
    · rcases List.mem_cons.mp h with h | h
      · exact .inl (.inr h)
      · exact .inr (isDigit_writeBehind _ _ c h)
  newline := by decide

end Table
