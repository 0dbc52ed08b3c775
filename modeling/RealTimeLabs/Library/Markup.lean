import Mathlib.Data.List.Basic

/-! Well-nested markup, decided character by character.

`step` is a scanner with a stack of the elements that are open. It accepts one element,
with a document type declaration and white space before it if need be, and refuses
anything else as soon as it sees it: text or a child before a start tag is complete, an
attribute without its quotes, an attribute name twice in one tag, an end tag that is not
that of the innermost element, and whatever follows the end of the outermost one. The
rules say what the scanner makes of a tag, an attribute, a text. -/
namespace Markup

/-- Where the scanner is; `around` are the elements that are open, innermost first. -/
inductive State where
  | content (around : List (List Char))
  | opened (around : List (List Char))
  | declaration
  | startTag (around : List (List Char)) (name : List Char)
  | inTag (around : List (List Char)) (name : List Char) (keys : List (List Char))
  | key (around : List (List Char)) (name : List Char) (keys : List (List Char)) (k : List Char)
  | equals (around : List (List Char)) (name : List Char) (keys : List (List Char))
  | value (around : List (List Char)) (name : List Char) (keys : List (List Char))
  | valued (around : List (List Char)) (name : List Char) (keys : List (List Char))
  | slash (around : List (List Char))
  | endTag (around : List (List Char)) (name : List Char)
  | done
deriving DecidableEq

/-- A character that is nothing but text, in a text and between quotes. -/
def Plain (c : Char) : Prop := c ≠ '<' ∧ c ≠ '>' ∧ c ≠ '&' ∧ c ≠ '"'

instance (c : Char) : Decidable (Plain c) := inferInstanceAs (Decidable (_ ∧ _))

theorem plain_of_all {text : List Char} (h : text.all (fun c => decide (Plain c)) = true) :
    ∀ c ∈ text, Plain c := fun c hc => of_decide_eq_true (List.all_eq_true.mp h c hc)

def nameChar (c : Char) : Bool := c.isAlphanum || c == '-'

/-- After an element has ended. -/
def State.after : List (List Char) → State
  | [] => .done
  | around => .content around

def step : State → Char → Option State
  | .content around, c =>
    if c = '<' then some (.opened around)
    else if c.isWhitespace || !around.isEmpty && decide (Plain c) then some (.content around)
    else none
  | .opened around, c =>
    if c = '/' then some (.endTag around [])
    else if c = '!' ∧ around = [] then some .declaration
    else if c.isAlpha then some (.startTag around [c])
    else none
  | .declaration, c =>
    if c = '>' then some (.content [])
    else if Plain c then some .declaration
    else none
  | .startTag around name, c =>
    if nameChar c then some (.startTag around (name ++ [c]))
    else if c.isWhitespace then some (.inTag around name [])
    else if c = '>' then some (.content (name :: around))
    else none
  | .inTag around name keys, c =>
    if c.isWhitespace then some (.inTag around name keys)
    else if c = '>' then some (.content (name :: around))
    else if c = '/' then some (.slash around)
    else if c.isAlpha then some (.key around name keys [c])
    else none
  | .key around name keys k, c =>
    if nameChar c then some (.key around name keys (k ++ [c]))
    else if c = '=' ∧ k ∉ keys then some (.equals around name (k :: keys))
    else none
  | .equals around name keys, c => if c = '"' then some (.value around name keys) else none
  | .value around name keys, c =>
    if c = '"' then some (.valued around name keys)
    else if Plain c then some (.value around name keys)
    else none
  | .valued around name keys, c =>
    if c.isWhitespace then some (.inTag around name keys)
    else if c = '>' then some (.content (name :: around))
    else none
  | .slash around, c => if c = '>' then some (.after around) else none
  | .endTag around name, c =>
    if nameChar c then some (.endTag around (name ++ [c]))
    else
      match around with
      | [] => none
      | innermost :: rest => if c = '>' ∧ name = innermost then some (.after rest) else none
  | .done, _ => none

def feed (s : State) (text : List Char) : Option State := text.foldlM step s

/-- One element, correctly nested, and nothing after it. -/
def WellNested (text : List Char) : Prop := feed (.content []) text = some .done

instance (text : List Char) : Decidable (WellNested text) := inferInstanceAs (Decidable (_ = _))

theorem feed_append (s : State) (a b : List Char) :
    feed s (a ++ b) = (feed s a).bind (feed · b) := List.foldlM_append

/-- Text on text. -/
theorem feed_trans {s s' s'' : State} {a b : List Char} (ha : feed s a = some s')
    (hb : feed s' b = some s'') : feed s (a ++ b) = some s'' := by
  rw [feed_append, ha]
  exact hb

/-- What a state keeps through each character it keeps through all. -/
theorem feed_stays {s : State} {text : List Char} (h : ∀ c ∈ text, step s c = some s) :
    feed s text = some s := by
  induction text with
  | nil => rfl
  | cons c rest ih =>
    rw [List.forall_mem_cons] at h
    change (step s c).bind (feed · rest) = _
    rw [h.1]
    exact ih h.2

section
variable {around : List (List Char)} {name : List Char} {keys : List (List Char)}

theorem feed_text {innermost : List Char} {text : List Char} (h : ∀ c ∈ text, Plain c) :
    feed (.content (innermost :: around)) text = some (.content (innermost :: around)) := by
  apply feed_stays
  intro c hc
  simp only [step]
  rw [if_neg (h c hc).1, if_pos (by simp [h c hc])]

theorem feed_value {text : List Char} (h : ∀ c ∈ text, Plain c) :
    feed (.value around name keys) text = some (.value around name keys) := by
  apply feed_stays
  intro c hc
  simp only [step]
  rw [if_neg (h c hc).2.2.2, if_pos (h c hc)]

/-- The name of an element or of an attribute. -/
structure IsName (name : List Char) : Prop where
  ne_nil : name ≠ []
  head : ∀ c ∈ name.head?, c.isAlpha = true
  chars : ∀ c ∈ name, nameChar c = true

instance : (name : List Char) → Decidable (IsName name)
  | [] => .isFalse fun h => h.ne_nil rfl
  | c :: rest => decidable_of_iff (c.isAlpha = true ∧ (c :: rest).all nameChar = true)
    ⟨fun h => ⟨List.cons_ne_nil c rest, fun _ hd => Option.some.inj hd ▸ h.1,
      List.all_eq_true.mp h.2⟩, fun h => ⟨h.head c rfl, List.all_eq_true.mpr h.chars⟩⟩

/-- A name is read character by character, in whichever state collects it. -/
theorem feed_collects {s : List Char → State} (hs : ∀ n c, nameChar c = true →
    step (s n) c = some (s (n ++ [c]))) (head : List Char) {rest : List Char}
    (h : ∀ c ∈ rest, nameChar c = true) : feed (s head) rest = some (s (head ++ rest)) := by
  induction rest generalizing head with
  | nil =>
    rw [List.append_nil]
    rfl
  | cons c rest ih =>
    rw [List.forall_mem_cons] at h
    change (step (s head) c).bind (feed · rest) = _
    rw [hs head c h.1, List.append_cons head c rest]
    exact ih (head ++ [c]) h.2

theorem IsName.exists_cons (h : IsName name) : ∃ c rest, name = c :: rest ∧ c.isAlpha = true ∧
    ∀ d ∈ rest, nameChar d = true := by
  obtain ⟨c, rest, rfl⟩ := List.exists_cons_of_ne_nil h.ne_nil
  exact ⟨c, rest, rfl, h.head c rfl, (List.forall_mem_cons.mp h.chars).2⟩

theorem not_isAlpha_of_eq {c d : Char} (hc : c.isAlpha = true) (hd : d.isAlpha = false) :
    c ≠ d := by
  intro rfl
  rw [hc] at hd
  cases hd

theorem not_isWhitespace_of_isAlpha {c : Char} (hc : c.isAlpha = true) :
    c.isWhitespace = false := by
  rw [Bool.eq_false_iff]
  intro hw
  simp only [Char.isWhitespace, Bool.or_eq_true, decide_eq_true_eq] at hw
  rcases hw with ((rfl | rfl) | rfl) | rfl <;> cases hc

/-- The start of a tag. -/
theorem feed_tagStart (h : IsName name) :
    feed (.content around) ('<' :: name) = some (.startTag around name) := by
  obtain ⟨c, rest, rfl, hc, hrest⟩ := h.exists_cons
  have hopened : step (.opened around) c = some (.startTag around [c]) := by
    simp only [step]
    rw [if_neg (not_isAlpha_of_eq hc rfl), if_neg fun he => not_isAlpha_of_eq hc rfl he.1,
      if_pos hc]
  change (step (.opened around) c).bind (feed · rest) = _
  rw [hopened]
  exact feed_collects (fun n d hd => by simp only [step, hd, if_true]) [c] hrest

/-- The end tag of the innermost element. -/
theorem feed_tagEnd (h : ∀ c ∈ name, nameChar c = true) :
    feed (.content (name :: around)) ('<' :: '/' :: (name ++ ['>'])) = some (.after around) := by
  change feed (.endTag (name :: around) []) (name ++ ['>']) = _
  refine feed_trans (feed_collects (fun n d hd => by simp only [step, hd, if_true]) [] h) ?_
  rw [List.nil_append]
  have hclose : step (.endTag (name :: around) name) '>' = some (.after around) := by
    simp [step, show nameChar '>' = false from rfl]
  change (step (.endTag (name :: around) name) '>').bind (feed · []) = _
  rw [hclose]
  rfl

/-- The name of an attribute, and the quote that opens its value. -/
theorem feed_attributeStart {key : List Char} (hkey : IsName key) (hnew : key ∉ keys) :
    feed (.inTag around name keys) (key ++ ['=', '"']) =
      some (.value around name (key :: keys)) := by
  have hopen : feed (.inTag around name keys) key = some (.key around name keys key) := by
    obtain ⟨c, rest, rfl, hc, hrest⟩ := hkey.exists_cons
    have hfirst : step (.inTag around name keys) c = some (.key around name keys [c]) := by
      simp only [step]
      rw [not_isWhitespace_of_isAlpha hc, if_neg Bool.false_ne_true,
        if_neg (not_isAlpha_of_eq hc rfl), if_neg (not_isAlpha_of_eq hc rfl), if_pos hc]
    change (step _ c).bind (feed · rest) = _
    rw [hfirst]
    exact feed_collects (fun n d hd => by simp only [step, hd, if_true]) [c] hrest
  have hequals : step (.key around name keys key) '=' =
      some (.equals around name (key :: keys)) := by
    simp [step, show nameChar '=' = false from rfl, hnew]
  refine feed_trans hopen ?_
  change (step _ '=').bind (feed · _) = _
  rw [hequals]
  rfl

/-- An attribute with its value, as far as the blank behind it. -/
theorem feed_attribute {key text : List Char} (hkey : IsName key) (hnew : key ∉ keys)
    (htext : ∀ c ∈ text, Plain c) :
    feed (.inTag around name keys) (key ++ ['=', '"'] ++ text ++ ['"', ' ']) =
      some (.inTag around name (key :: keys)) := by
  refine feed_trans (feed_trans (feed_attributeStart hkey hnew) (feed_value htext)) ?_
  rfl

end

end Markup
