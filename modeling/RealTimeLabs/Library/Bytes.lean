import Mathlib.Logic.Basic

/-! Byte memory: runs of bytes, little-endian 32-bit words, and C strings.

A memory is a function from offsets to bytes, so a write past the end of an object
lands on whatever lies behind it. Every write is `writeBytes`; the lemmas say what a
later read sees, through the write (`load32_store32`, `writeBytes_at`,
`readBytes_writeBytes`) or beside it (`writeBytes_outside`, `load32_outside`). -/
namespace Bytes

abbrev Byte := BitVec 8

abbrev Memory := Nat → Byte

/-- A run of bytes laid down at an offset. -/
def writeBytes (m : Memory) (addr : Nat) (bs : List Byte) : Memory := fun x =>
  if addr ≤ x ∧ x < addr + bs.length then bs.getD (x - addr) 0 else m x

theorem writeBytes_outside (m : Memory) (addr x : Nat) (bs : List Byte)
    (h : x < addr ∨ addr + bs.length ≤ x) : writeBytes m addr bs x = m x := by
  unfold writeBytes
  rw [if_neg]
  omega

theorem writeBytes_at (m : Memory) (addr k : Nat) (bs : List Byte) (h : k < bs.length) :
    writeBytes m addr bs (addr + k) = bs.getD k 0 := by
  unfold writeBytes
  rw [if_pos (by omega), Nat.add_sub_cancel_left]

/-- `n` bytes from an offset on. -/
def readBytes (m : Memory) (addr n : Nat) : List Byte := (List.range n).map fun k => m (addr + k)

theorem length_readBytes (m : Memory) (addr n : Nat) : (readBytes m addr n).length = n := by
  simp [readBytes]

/-- What has been laid down is read back. -/
theorem readBytes_writeBytes (m : Memory) (addr : Nat) (bs : List Byte) :
    readBytes (writeBytes m addr bs) addr bs.length = bs := by
  apply List.ext_getElem (length_readBytes _ _ _)
  intro k hk hk'
  simp only [readBytes, List.getElem_map, List.getElem_range]
  rw [writeBytes_at m addr k bs hk', List.getD_eq_getElem?_getD, List.getElem?_eq_getElem hk',
    Option.getD_some]

/-- `n` bytes of one value. -/
def memset (m : Memory) (addr : Nat) (v : Byte) (n : Nat) : Memory := fun x =>
  if addr ≤ x ∧ x < addr + n then v else m x

theorem memset_at (m : Memory) (addr x n : Nat) (v : Byte) (h : addr ≤ x ∧ x < addr + n) :
    memset m addr v n x = v := if_pos h

/-! ### Words -/

/-- The 32-bit little-endian word at an offset. -/
def load32 (m : Memory) (addr : Nat) : BitVec 32 :=
  m (addr + 3) ++ m (addr + 2) ++ m (addr + 1) ++ m addr

theorem load32_zero {m : Memory} {addr : Nat} (h : ∀ x, addr ≤ x → x < addr + 4 → m x = 0) :
    load32 m addr = 0 := by
  unfold load32
  rw [h _ (by omega) (by omega), h _ (by omega) (by omega), h _ (by omega) (by omega),
    h _ (by omega) (by omega)]
  rfl

/-- A word is zero when its bytes are. -/
theorem load32_eq_zero_iff {m : Memory} {addr : Nat} :
    load32 m addr = 0 ↔ ∀ x, addr ≤ x → x < addr + 4 → m x = 0 := by
  refine ⟨fun h x hlo hhi => ?_, load32_zero⟩
  have hk : x = addr ∨ x = addr + 1 ∨ x = addr + 2 ∨ x = addr + 3 := by omega
  apply BitVec.eq_of_getLsbD_eq
  intro i hi
  have hbits (k : Nat) : (load32 m addr).getLsbD k = false := by rw [h]; simp
  have h0 := hbits i
  have h1 := hbits (i + 8)
  have h2 := hbits (i + 16)
  have h3 := hbits (i + 24)
  simp only [load32, BitVec.getLsbD_append] at h0 h1 h2 h3
  rcases hk with rfl | rfl | rfl | rfl <;> grind

/-- The bytes of a word, least significant first. -/
def wordBytes (w : BitVec 32) : List Byte :=
  [w.extractLsb' 0 8, w.extractLsb' 8 8, w.extractLsb' 16 8, w.extractLsb' 24 8]

def store32 (m : Memory) (addr : Nat) (w : BitVec 32) : Memory := writeBytes m addr (wordBytes w)

theorem load32_outside (m : Memory) (addr src : Nat) (bs : List Byte)
    (h : src + 4 ≤ addr ∨ addr + bs.length ≤ src) :
    load32 (writeBytes m addr bs) src = load32 m src := by
  unfold load32
  rw [writeBytes_outside m addr (src + 3) bs (by omega),
    writeBytes_outside m addr (src + 2) bs (by omega),
    writeBytes_outside m addr (src + 1) bs (by omega), writeBytes_outside m addr src bs (by omega)]

theorem load32_store32 (m : Memory) (addr : Nat) (w : BitVec 32) :
    load32 (store32 m addr w) addr = w := by
  have hbyte (k : Nat) (hk : k < 4) : store32 m addr w (addr + k) = (wordBytes w).getD k 0 :=
    writeBytes_at m addr k (wordBytes w) hk
  have h0 : store32 m addr w addr = w.extractLsb' 0 8 := hbyte 0 (by decide)
  unfold load32
  rw [hbyte 3 (by decide), hbyte 2 (by decide), hbyte 1 (by decide), h0]
  apply BitVec.eq_of_getLsbD_eq
  intro i hi
  simp only [wordBytes, List.getD_cons_succ, List.getD_cons_zero, BitVec.getLsbD_append,
    BitVec.getLsbD_extractLsb']
  grind

theorem load32_store32_ne (m : Memory) (addr src : Nat) (w : BitVec 32)
    (h : src + 4 ≤ addr ∨ addr + 4 ≤ src) : load32 (store32 m addr w) src = load32 m src :=
  load32_outside m addr src (wordBytes w) h

theorem store32_outside (m : Memory) (addr x : Nat) (w : BitVec 32)
    (h : x < addr ∨ addr + 4 ≤ x) : store32 m addr w x = m x :=
  writeBytes_outside m addr x (wordBytes w) h

/-- The first bytes of a word overwritten, the others kept. -/
def overlay (w : BitVec 32) (bs : List Byte) : BitVec 32 :=
  load32 (writeBytes (store32 (fun _ => 0) 0 w) 0 (bs.take 4)) 0

/-! ### C strings -/

/-- A C string: its characters, none of them the terminator. -/
structure CString where
  chars : List Byte
  noNul : 0 ∉ chars

def CString.strlen (s : CString) : Nat := s.chars.length

/-- `strcpy`: the characters and the terminator, whatever the room at the destination. -/
def strcpy (m : Memory) (dst : Nat) (s : CString) : Memory := writeBytes m dst (s.chars ++ [0])

theorem strcpy_outside (m : Memory) (dst x : Nat) (s : CString)
    (h : x < dst ∨ dst + s.strlen < x) : strcpy m dst s x = m x := by
  apply writeBytes_outside
  simp only [CString.strlen] at h
  simp only [List.length_append, List.length_singleton]
  omega

theorem load32_strcpy_outside (m : Memory) (dst src : Nat) (s : CString)
    (h : src + 4 ≤ dst ∨ dst + s.strlen < src) : load32 (strcpy m dst s) src = load32 m src := by
  apply load32_outside
  simp only [CString.strlen] at h
  simp only [List.length_append, List.length_singleton]
  omega

/-- The terminator of a string, on a byte that is zero already, changes nothing. -/
theorem strcpy_keeps_zero {m : Memory} {dst x : Nat} {s : CString} (hx : m x = 0)
    (h : x < dst ∨ dst + s.strlen ≤ x) : strcpy m dst s x = 0 := by
  by_cases hend : x = dst + s.strlen
  · have hterm := writeBytes_at m dst s.strlen (s.chars ++ [0]) (by simp [CString.strlen])
    unfold strcpy
    rw [hend, hterm]
    simp [CString.strlen]
  · rw [strcpy_outside m dst x s (by omega)]
    exact hx

/-- `strlen` of an array of `size` bytes: the offset of its first terminator, or nothing
where the search leaves the array. -/
def strlenWithin (m : Memory) (addr size : Nat) : Option Nat :=
  (List.range size).find? fun k => m (addr + k) = 0

theorem strlenWithin_eq {m : Memory} {addr size n : Nat} (hn : n < size) (hend : m (addr + n) = 0)
    (hbefore : ∀ k < n, m (addr + k) ≠ 0) : strlenWithin m addr size = some n := by
  unfold strlenWithin
  rw [List.find?_range_eq_some]
  exact ⟨decide_eq_true hend, List.mem_range.mpr hn,
    fun k hk => by rw [decide_eq_false (hbefore k hk)]; rfl⟩

end Bytes
