import Mathlib.Algebra.Group.Nat.Defs
import RealTimeLabs.Cache.Measurement
import RealTimeLabs.Library.Table

/-! What `measureCache` prints.

The sizes double from 1 KiB to 4 MiB (`sizes_doubling`), and each has a line with two tabs between
the bytes and the time of a jump. Read back, the lines are the table that `config.h` describes
(`measureCache_printed`). -/
namespace RealTimeLabs.Cache

/-! ### The sizes -/

/-- From one size on, the next are its doubles. -/
theorem sizes_doubling (k : Nat) {j : Nat} (h : j + k = 13) :
    sizes (256 * 2 ^ j) = (List.range' j k).map fun i => 256 * 2 ^ i := by
  induction k generalizing j with
  | zero =>
    obtain rfl : j = 13 := h
    rw [sizes, dif_neg (by decide)]
    rfl
  | succ k ih =>
    have hmax : maxArrayLen = 256 * 2 ^ 12 := rfl
    have hle : 256 * 2 ^ j ≤ maxArrayLen := by
      rw [hmax]
      exact Nat.mul_le_mul_left 256 (Nat.pow_le_pow_right (by decide) (by omega))
    have hpos : 0 < 256 * 2 ^ j := Nat.mul_pos (by decide) (Nat.two_pow_pos j)
    have hnext : (256 * 2 ^ j) <<< 1 = 256 * 2 ^ (j + 1) := by
      rw [Nat.shiftLeft_eq, Nat.pow_one, Nat.mul_assoc, ← Nat.pow_succ]
    rw [sizes, dif_pos ⟨hpos, hle⟩, hnext, ih (by omega), List.range'_succ, List.map_cons]

/-! ### The text -/

/-- The separator of a line. -/
def tabs : Table.Separator Table.decimal := ⟨['\t', '\t'], by decide, by decide⟩

/-- `printf("%lu\t\t%lu\n", ..)` -/
def printLine (row : Nat × UInt32) : List Char :=
  Table.writeDecimal row.1 ++ "\t\t".toList ++ Table.writeDecimal row.2.toNat ++ "\n".toList

/-- All that a call prints, when it has returned; in a mode that is unknown it returns at once. -/
def printed (mode jumps : Int32) (env : Environment) (a : Arrays) : Except Fault (List Char) :=
  (measureCache mode jumps env a).map fun rows =>
    "Measurement started\n".toList ++ rows.flatMap printLine ++
      if mode = sequential ∨ mode = random then "Measurement finished\n".toList else []

theorem flatMap_printLine (rows : List (Nat × UInt32)) :
    rows.flatMap printLine =
      Table.text tabs (rows.map fun row => [(row.1 : Int), (row.2.toNat : Int)]) := by
  induction rows with
  | nil => rfl
  | cons row rest ih =>
    have hline : printLine row = Table.line tabs [(row.1 : Int), (row.2.toNat : Int)] := by
      simp only [printLine, Table.line, Table.tail, List.flatMap_cons, List.flatMap_nil,
        List.append_nil, List.append_assoc]
      rfl
    rw [List.flatMap_cons, hline, ih, List.map_cons, Table.text, Table.text, List.flatMap_cons]

theorem read_lines (rows : List (List Int)) :
    Table.read Table.decimal ("Measurement started\n".toList ++ Table.text tabs rows ++
      "Measurement finished\n".toList) = [] :: rows ++ [[]] := by
  have hstarted : "Measurement started\n".toList = "Measurement started".toList ++ ['\n'] := rfl
  have hfinished : "Measurement finished\n".toList = "Measurement finished".toList ++ ['\n'] := rfl
  rw [hstarted, hfinished]
  exact Table.read_between tabs rows (by decide +kernel) (by decide +kernel)

/-- **The table of the measurements**: in both modes, for every stream of random numbers, whatever
the timer shows and whatever the arrays have held before, a positive number of jumps gives a text
that is read back as the thirteen sizes from 1 KiB to 4 MiB, each with the time measured there
divided by the jumps; with any other number the first measurement overflows its counter. -/
theorem measureCache_printed {mode : Int32} (hmode : mode = sequential ∨ mode = random)
    (jumps : Int32) (env : Environment) (a : Arrays) :
    (1 ≤ jumps.toInt → ∃ text, printed mode jumps env a = .ok text ∧
      Table.read Table.decimal text = [] :: (List.range 13).map (fun k : Nat =>
        [((1024 * 2 ^ k : Nat) : Int),
          (((env.stop (256 * 2 ^ k) - env.start (256 * 2 ^ k)) / jumps.toUInt32).toNat : Int)]) ++
        [[]]) ∧
    (jumps.toInt ≤ 0 → printed mode jumps env a = .error .overflow) := by
  refine ⟨fun hjumps => ?_, fun hjumps => ?_⟩
  · have hsizes := sizes_doubling 13 (j := 0) rfl
    rw [Nat.pow_zero, Nat.mul_one, ← List.range_eq_range'] at hsizes
    have hprinted : printed mode jumps env a = .ok ("Measurement started\n".toList ++
        ((sizes 256).map fun i => (i * sizeofElem,
          (env.stop i - env.start i) / jumps.toUInt32)).flatMap printLine ++
        "Measurement finished\n".toList) := by
      rw [printed, measureCache_rows hmode env a hjumps, if_pos hmode]
      rfl
    refine ⟨_, hprinted, ?_⟩
    rw [flatMap_printLine, read_lines, hsizes, List.map_map, List.map_map]
    have hbytes (k : Nat) : 256 * 2 ^ k * sizeofElem = 1024 * 2 ^ k := by
      have hsize : sizeofElem = 4 := rfl
      rw [hsize, Nat.mul_right_comm]
    simp only [Function.comp_def, hbytes]
  · rw [printed, measureCache_overflow hmode env a hjumps]
    rfl

/-- The timer passes its wrap at every size, and takes longer where the array is longer. -/
def growing : Environment where
  rand _ i := Fin.ofNat (randMax + 1) (1103515245 * i)
  start _ := 4294967290
  stop i := 40 * UInt32.ofNat i - 6

theorem measureCache_printed_growing :
    (∃ text, printed random 1000 growing ⟨fun _ => none, fun _ => 0⟩ = .ok text ∧
      Table.read Table.decimal text = [[], [1024, 10], [2048, 20], [4096, 40], [8192, 81],
        [16384, 163], [32768, 327], [65536, 655], [131072, 1310], [262144, 2621], [524288, 5242],
        [1048576, 10485], [2097152, 20971], [4194304, 41943], []]) ∧
    printed random 0 growing ⟨fun _ => none, fun _ => 0⟩ = .error .overflow := by
  have h (jumps : Int32) :=
    measureCache_printed (.inr rfl) jumps growing ⟨fun _ => none, fun _ => 0⟩
  obtain ⟨text, hprinted, hread⟩ := (h 1000).1 (by decide)
  exact ⟨⟨text, hprinted, hread.trans (by decide +kernel)⟩, (h 0).2 (by decide)⟩

end RealTimeLabs.Cache
