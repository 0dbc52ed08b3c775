import RealTimeLabs.Library.Markup

/-! The values of one attribute, wherever it stands in a text.

A reader that knows nothing but quotes and white space: a quote right after a word that is the key
with its sign of equality opens a value, any other opens something to skip, and the next quote ends
either. `Reads` says what a piece of text does to the reader, and composes. `Found`
are the values in a text, whatever word it goes on with; a text without any is `Quiet`. -/
namespace Attributes
open Markup

inductive Scan where
  /-- Outside of quotes, with the characters since the last space or quote. -/
  | outside (word : List Char)
  | skipped
  | value (seen : List Char)
deriving DecidableEq

def next (key : List Char) : Scan → Char → Scan
  | .outside word, c =>
    if c = '"' then (if word = key ++ ['='] then .value [] else .skipped)
    else if c.isWhitespace then .outside []
    else .outside (word ++ [c])
  | .skipped, c => if c = '"' then .outside [] else .skipped
  | .value seen, c => if c = '"' then .outside [] else .value (seen ++ [c])

/-- The value that a character ends. -/
def ended : Scan → Char → List (List Char)
  | .value seen, c => if c = '"' then [seen] else []
  | _, _ => []

/-- The values in a text, and where the reader is at its end. -/
def read (key : List Char) : Scan → List Char → List (List Char) × Scan
  | s, [] => ([], s)
  | s, c :: rest => ((read key (next key s c) rest).map (ended s c ++ ·) id)

/-- The values of the attribute `key`. -/
def values (key text : List Char) : List (List Char) := (read key (.outside []) text).1

/-! ### Pieces of text -/

/-- From `s` to `s'`, past the values `vs`. -/
def Reads (key : List Char) (s : Scan) (text : List Char) (vs : List (List Char)) (s' : Scan) :
    Prop := read key s text = (vs, s')

instance (key : List Char) (s : Scan) (text : List Char) (vs : List (List Char)) (s' : Scan) :
    Decidable (Reads key s text vs s') := inferInstanceAs (Decidable (_ = _))

variable {key : List Char}

theorem Reads.cons {s s' : Scan} {c : Char} {rest : List Char} {vs : List (List Char)}
    (h : Reads key (next key s c) rest vs s') : Reads key s (c :: rest) (ended s c ++ vs) s' := by
  rw [Reads, read, show read key (next key s c) rest = (vs, s') from h]
  rfl

/-- A character that ends no value. -/
theorem Reads.step {s s' s'' : Scan} {c : Char} {rest : List Char} {vs : List (List Char)}
    (hnext : next key s c = s'') (hended : ended s c = []) (h : Reads key s'' rest vs s') :
    Reads key s (c :: rest) vs s' := by
  have hcons := (hnext.symm ▸ h : Reads key (next key s c) rest vs s').cons
  rwa [hended] at hcons

theorem Reads.append {s s' s'' : Scan} {a b : List Char} {vs ws : List (List Char)}
    (ha : Reads key s a vs s') (hb : Reads key s' b ws s'') :
    Reads key s (a ++ b) (vs ++ ws) s'' := by
  induction a generalizing s vs with
  | nil =>
    cases ha
    exact hb
  | cons c rest ih =>
    obtain ⟨us, t, hrest⟩ : ∃ us t, Reads key (next key s c) rest us t := ⟨_, _, rfl⟩
    cases hrest.cons.symm.trans ha
    rw [List.cons_append, List.append_assoc]
    exact (ih hrest).cons

/-- Nothing that could open or end a value. -/
def Unquoted (text : List Char) : Prop := ∀ c ∈ text, c ≠ '"'

instance (text : List Char) : Decidable (Unquoted text) := List.decidableBAll _ text

theorem Unquoted.append {a b : List Char} (ha : Unquoted a) (hb : Unquoted b) :
    Unquoted (a ++ b) := List.forall_mem_append.mpr ⟨ha, hb⟩

theorem unquoted_of_plain {text : List Char} (h : ∀ c ∈ text, Plain c) : Unquoted text :=
  fun c hc => (h c hc).2.2.2

theorem reads_skipped {text : List Char} (h : Unquoted text) :
    Reads key .skipped text [] .skipped := by
  induction text with
  | nil => rfl
  | cons c rest ih =>
    obtain ⟨hc, hrest⟩ := List.forall_mem_cons.mp h
    exact Reads.step (if_neg hc) rfl (ih hrest)

theorem reads_value {text : List Char} (h : Unquoted text) (seen : List Char) :
    Reads key (.value seen) text [] (.value (seen ++ text)) := by
  induction text generalizing seen with
  | nil =>
    rw [List.append_nil]
    rfl
  | cons c rest ih =>
    obtain ⟨hc, hrest⟩ := List.forall_mem_cons.mp h
    rw [List.append_cons]
    exact Reads.step (if_neg hc) (if_neg hc) (ih hrest _)

/-- Neither quotes nor white space. -/
def Word (text : List Char) : Prop := ∀ c ∈ text, c ≠ '"' ∧ c.isWhitespace = false

instance (text : List Char) : Decidable (Word text) := List.decidableBAll _ text

/-- Outside of quotes, a word grows. -/
theorem reads_word {text : List Char} (h : Word text) (word : List Char) :
    Reads key (.outside word) text [] (.outside (word ++ text)) := by
  induction text generalizing word with
  | nil =>
    rw [List.append_nil]
    rfl
  | cons c rest ih =>
    obtain ⟨⟨hquote, hspace⟩, hrest⟩ := List.forall_mem_cons.mp h
    have hnext : next key (.outside word) c = .outside (word ++ [c]) := by
      rw [next, if_neg hquote, hspace, if_neg Bool.false_ne_true]
    rw [List.append_cons]
    exact Reads.step hnext rfl (ih hrest _)

/-- A quote behind a word and a sign of equality. -/
theorem reads_quote (key word : List Char) : Reads key (.outside word) ['=', '"'] []
    (if word = key then .value [] else .skipped) := by
  have hquote : next key (.outside (word ++ ['='])) '"' =
      if word = key then .value [] else .skipped := by
    rw [next, if_pos rfl]
    simp only [List.append_left_inj]
  exact Reads.step rfl rfl (Reads.step hquote rfl rfl)

/-- **The value of an attribute is read**, after white space. -/
theorem reads_attribute {text : List Char} (hkey : Word key) (h : Unquoted text) :
    Reads key (.outside []) (key ++ ['=', '"'] ++ text ++ ['"']) [text] (.outside []) := by
  have hopen : Reads key (.outside key) ['=', '"'] [] (.value []) := by
    have hquote := reads_quote key key
    rwa [if_pos rfl] at hquote
  have hend : Reads key (.value text) ['"'] [text] (.outside []) := rfl
  exact (((reads_word hkey []).append hopen).append (reads_value h [])).append hend

/-! ### Texts with and without values -/

/-- The values in a text, whatever word it goes on with. -/
def Found (key text : List Char) (vs : List (List Char)) : Prop :=
  ∀ word, ∃ word', Reads key (.outside word) text vs (.outside word')

theorem Found.append {a b : List Char} {vs ws : List (List Char)} (ha : Found key a vs)
    (hb : Found key b ws) : Found key (a ++ b) (vs ++ ws) := fun word => by
  obtain ⟨word', ha⟩ := ha word
  obtain ⟨word'', hb⟩ := hb word'
  exact ⟨word'', ha.append hb⟩

theorem Found.values {text : List Char} {vs : List (List Char)} (h : Found key text vs) :
    values key text = vs := by
  obtain ⟨word, hreads⟩ := h []
  exact congrArg Prod.fst hreads

/-- No value, and none that is still open. -/
def Quiet (key text : List Char) : Prop := Found key text []

theorem Quiet.append {a b : List Char} (ha : Quiet key a) (hb : Quiet key b) :
    Quiet key (a ++ b) := Found.append ha hb

theorem quiet_unquoted {text : List Char} (h : Unquoted text) : Quiet key text := by
  intro word
  induction text generalizing word with
  | nil => exact ⟨word, rfl⟩
  | cons c rest ih =>
    obtain ⟨hc, hrest⟩ := List.forall_mem_cons.mp h
    obtain ⟨word', hword⟩ : ∃ word', next key (.outside word) c = .outside word' := by
      rw [next, if_neg hc]
      split <;> exact ⟨_, rfl⟩
    obtain ⟨word'', hreads⟩ := ih hrest word'
    exact ⟨word'', Reads.step hword rfl hreads⟩

/-- An attribute of another name, and not of one that ends the key. -/
theorem quiet_attribute {name text : List Char} (hname : ¬ name <:+ key) (hword : Word name)
    (h : Unquoted text) :
    Quiet key (name ++ ['=', '"'] ++ text ++ ['"']) := by
  intro word
  have hopen : Reads key (.outside (word ++ name)) ['=', '"'] [] .skipped := by
    have hquote := reads_quote key (word ++ name)
    rwa [if_neg fun heq => hname ⟨word, heq⟩] at hquote
  have hend : Reads key .skipped ['"'] [] (.outside []) := rfl
  exact ⟨[], (((reads_word hword word).append hopen).append (reads_skipped h)).append hend⟩

end Attributes
