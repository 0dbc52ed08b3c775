import RealTimeLabs.Response.Accounts

/-! What `MonitorTask` prints.

The monitor prints the maps number by number while the handler and the service task count on,
so a block is no picture of any one moment. Each number printed is that of its own moment, the
moments follow each other, and between the two messages there are three rows of twenty numbers
for each of the seconds asked for, in a form that can be read back (`report_run`). -/
namespace RealTimeLabs.Response

variable {T : Timer}

/-- The separator of a row. -/
def comma : Table.Separator Table.decimal := ⟨[','], by decide, by decide⟩

/-- A number printed, with how much had been counted by then. -/
structure Entry where
  value : Int
  handled : Nat
  served : Nat

/-- The number that belongs to what has been counted. -/
def shown (T : Timer) (row : Row) (j : Nat) (handled : List Answer) (served : List Nat) : Int :=
  match row with
  | .axis => j
  | .isr => (UInt32.ofNat (handled.countP fun a => T.countedAt j a.read)).toInt32.toInt
  | .srv => (UInt32.ofNat (served.countP fun t => T.countedAt j t)).toInt32.toInt

structure Entry.Shows (T : Timer) (handled : List Answer) (served : List Nat) (row : Row) (j : Nat)
    (e : Entry) : Prop where
  handled_le : e.handled ≤ handled.length
  served_le : e.served ≤ served.length
  value : e.value = shown T row j (handled.take e.handled) (served.take e.served)

/-- In the order of time. -/
def Entry.Before (e e' : Entry) : Prop := e.handled ≤ e'.handled ∧ e.served ≤ e'.served

def RowShows (T : Timer) (handled : List Answer) (served : List Nat) (row : Row)
    (entries : List Entry) : Prop :=
  ∀ (j : Nat) e, entries[j]? = some e → e.Shows T handled served row j

/-- The row with the number `n`. -/
def rowOf (n : Nat) : Row := if n % 3 = 0 then .axis else if n % 3 = 1 then .isr else .srv

theorem rowOf_index {i : Int32} {row : Row} {n : Nat} (h : (n : Int) = 3 * i.toInt + row.index) :
    rowOf n = row := by
  unfold rowOf
  cases row <;> simp only [Row.index] at h
  · rw [if_pos (by omega)]
  · rw [if_neg (by omega), if_pos (by omega)]
  · rw [if_neg (by omega), if_neg (by omega)]

/-- Complete rows. -/
structure Report (T : Timer) (handled : List Answer) (served : List Nat)
    (rows : List (List Entry)) : Prop where
  width : ∀ entries ∈ rows, entries.length = timeMapSize
  shows : ∀ (n : Nat) entries, rows[n]? = some entries →
    RowShows T handled served (rowOf n) entries
  ordered : rows.flatten.Pairwise Entry.Before

def values (rows : List (List Entry)) : List (List Int) := rows.map fun row => row.map Entry.value

/-! ### What stays as it was printed -/

/-- What has been counted only gets more. -/
structure Grows (s s' : State T) : Prop where
  handled : s.handled <+: s'.handled
  served : s.served <+: s'.served

theorem Grows.refl (s : State T) : Grows s s := ⟨List.prefix_rfl, List.prefix_rfl⟩

theorem RowShows.grow {s s' : State T} {row : Row} {entries : List Entry}
    (h : RowShows T s.handled s.served row entries) (hg : Grows s s') :
    RowShows T s'.handled s'.served row entries := by
  intro j e he
  obtain ⟨hhandled, hserved, hvalue⟩ := h j e he
  obtain ⟨moreHandled, hmoreHandled⟩ := hg.handled
  obtain ⟨moreServed, hmoreServed⟩ := hg.served
  refine ⟨Nat.le_trans hhandled hg.handled.length_le, Nat.le_trans hserved hg.served.length_le, ?_⟩
  rw [hvalue, ← hmoreHandled, ← hmoreServed, List.take_append_of_le_length hhandled,
    List.take_append_of_le_length hserved]

theorem grows_step (measurements : Int32) (a : Action) (s : State T) :
    Grows s (step measurements a s) := by
  cases a with
  | tick =>
    exact tickStep_elim s (.refl s) (fun _ _ => ⟨List.prefix_rfl, List.prefix_rfl⟩)
      (fun _ _ _ => ⟨List.prefix_rfl, List.prefix_rfl⟩) fun _ => ⟨List.prefix_rfl, List.prefix_rfl⟩
  | enter => exact enterStep_elim s (.refl s) fun _ _ _ => ⟨List.prefix_rfl, List.prefix_rfl⟩
  | isr =>
    simp only [step, isrStep]
    split
    case h_3 => exact ⟨List.prefix_append .., List.prefix_rfl⟩
    all_goals exact ⟨List.prefix_rfl, List.prefix_rfl⟩
  | service =>
    simp only [step, serviceStep]
    split
    case h_5 => exact ⟨List.prefix_rfl, List.prefix_append ..⟩
    all_goals (try split) <;> exact ⟨List.prefix_rfl, List.prefix_rfl⟩
  | monitor =>
    exact monitorStep_elim measurements s fun _ _ _ => ⟨List.prefix_rfl, List.prefix_rfl⟩
  | main =>
    exact mainStep_elim s (.refl s) (fun _ => ⟨List.prefix_rfl, List.prefix_rfl⟩)
      (fun _ _ _ _ _ => ⟨List.prefix_rfl, List.prefix_rfl⟩)
      fun _ => ⟨List.prefix_rfl, List.prefix_rfl⟩

/-! ### Where the monitor is in its text -/

/-- So many rows are complete, so many numbers of the next are written with what follows them,
and one perhaps without. -/
def Place (measurements : Int32) (rows cur : Nat) (word : Bool) : MonitorPc → Prop
  | .absent | .started => rows = 0 ∧ cur = 0 ∧ word = false
  | .test i | .delay i => 0 ≤ i.toInt ∧ (rows : Int) = 3 * i.toInt ∧ cur = 0 ∧ word = false
  | .number i row j =>
    0 ≤ i.toInt ∧ (rows : Int) = 3 * i.toInt + row.index ∧ cur = j.val ∧ word = false
  | .separator i row j =>
    0 ≤ i.toInt ∧ (rows : Int) = 3 * i.toInt + row.index ∧ cur = j.val ∧ word = true
  | .increment i => 0 ≤ i.toInt ∧ (rows : Int) = 3 * (i.toInt + 1) ∧ cur = 0 ∧ word = false
  | .undefined => cur = 0 ∧ word = false
  | .finished | .setEnd | .done =>
    0 < measurements.toInt ∧ (rows : Int) = 3 * measurements.toInt ∧ cur = 0 ∧ word = false

def opening : MonitorPc → List Char
  | .absent | .started => []
  | _ => startedText

def closing : MonitorPc → List Char
  | .setEnd | .done => finishedText
  | _ => []

/-- The text so far: the complete rows, the numbers of the next one, and perhaps a number that
waits for its comma. -/
structure Written (measurements : Int32) (s : State T) (rows : List (List Entry))
    (cur : List Entry) (word : Option Entry) : Prop where
  width : ∀ entries ∈ rows, entries.length = timeMapSize
  shows : ∀ (n : Nat) entries, rows[n]? = some entries →
    RowShows T s.handled s.served (rowOf n) entries
  current : RowShows T s.handled s.served (rowOf rows.length) (cur ++ word.toList)
  ordered : (rows.flatten ++ (cur ++ word.toList)).Pairwise Entry.Before
  place : Place measurements rows.length cur.length word.isSome s.monitor
  printed : s.printed = opening s.monitor ++ (Table.text comma (values rows) ++
    Table.front comma (cur.map Entry.value) ++
    word.toList.flatMap fun e => Table.decimal.write e.value) ++ closing s.monitor
  mEnd : s.mEnd = true ↔ s.monitor = .done

theorem written_congr {m : Int32} {s s' : State T} {rows : List (List Entry)} {cur : List Entry}
    {word : Option Entry} (h : Written m s rows cur word) (hg : Grows s s')
    (hmonitor : s'.monitor = s.monitor) (hprinted : s'.printed = s.printed)
    (hmEnd : s'.mEnd = s.mEnd) : Written m s' rows cur word where
  width := h.width
  shows n entries hn := (h.shows n entries hn).grow hg
  current := h.current.grow hg
  ordered := h.ordered
  place := hmonitor ▸ h.place
  printed := by rw [hprinted, hmonitor]; exact h.printed
  mEnd := by rw [hmEnd, hmonitor]; exact h.mEnd

/-- From one statement to another, with nothing printed. -/
theorem written_move {m : Int32} {s : State T} {rows : List (List Entry)} {cur : List Entry}
    {word : Option Entry} (h : Written m s rows cur word) {pc : MonitorPc}
    (hplace : Place m rows.length cur.length word.isSome pc)
    (hopening : opening pc = opening s.monitor) (hclosing : closing pc = closing s.monitor)
    (hbefore : s.monitor ≠ .done) (hafter : pc ≠ .done) :
    Written m { s with monitor := pc } rows cur word where
  width := h.width
  shows := h.shows
  current := h.current
  ordered := h.ordered
  place := hplace
  printed := by rw [hopening, hclosing]; exact h.printed
  mEnd := ⟨fun hm => absurd (h.mEnd.mp hm) hbefore, fun hm => absurd hm hafter⟩

/-- A number is printed: the next of its row, as the map is now. -/
theorem written_number {m : Int32} {s : State T} {rows : List (List Entry)} {cur : List Entry}
    {word : Option Entry} (h : Written m s rows cur word) {b : Bench T} (hc : Counted b s)
    {i : Int32} {row : Row} {j : Fin timeMapSize} (hpc : s.monitor = .number i row j) :
    Written m
      { s with
        printed := s.printed ++ Table.decimal.write (cell s j row)
        monitor := .separator i row j }
      rows cur (some ⟨cell s j row, s.handled.length, s.served.length⟩) := by
  obtain ⟨hi, hrows, hcur, hword⟩ := (hpc ▸ h.place : Place m _ _ _ (.number i row j))
  have hnone : word = none := Option.isSome_eq_false_iff.mp hword |> Option.isNone_iff_eq_none.mp
  subst hnone
  have hprinted := h.printed
  have hordered := h.ordered
  have hcurrent := h.current
  rw [hpc] at hprinted
  simp only [Option.toList_none, List.append_nil, List.flatMap_nil, opening, closing]
    at hprinted hordered hcurrent
  have hshows : Entry.Shows T s.handled s.served row j.val
      ⟨cell s j row, s.handled.length, s.served.length⟩ := by
    refine ⟨Nat.le_refl _, Nat.le_refl _, ?_⟩
    rw [List.take_length, List.take_length]
    cases row with
    | axis => rfl
    | isr => rw [cell, hc.isrMap, shown]
    | srv => rw [cell, hc.srvMap, shown]
  have hbefore : ∀ e ∈ rows.flatten ++ cur,
      e.Before ⟨cell s j row, s.handled.length, s.served.length⟩ := by
    intro e he
    have hle : e.handled ≤ s.handled.length ∧ e.served ≤ s.served.length := by
      rcases List.mem_append.mp he with he | he
      · obtain ⟨entries, hentries, he⟩ := List.mem_flatten.mp he
        obtain ⟨n, hn, rfl⟩ := List.getElem_of_mem hentries
        obtain ⟨k, hk, rfl⟩ := List.getElem_of_mem he
        have hshown := h.shows n _ (List.getElem?_eq_getElem hn) k _ (List.getElem?_eq_getElem hk)
        exact ⟨hshown.handled_le, hshown.served_le⟩
      · obtain ⟨k, hk, rfl⟩ := List.getElem_of_mem he
        have hshown := hcurrent k _ (List.getElem?_eq_getElem hk)
        exact ⟨hshown.handled_le, hshown.served_le⟩
    exact hle
  constructor
  case width => exact h.width
  case shows => exact h.shows
  case current =>
    intro k e he
    rw [Option.toList_some, List.getElem?_append] at he
    split at he
    · exact hcurrent k e he
    · rename_i hge
      obtain ⟨hk0, hlast⟩ := List.getElem?_eq_some_iff.mp he
      rw [List.length_singleton] at hk0
      rw [List.getElem_singleton] at hlast
      have hkth : k = j.val := by omega
      rw [rowOf_index hrows, hkth, ← hlast]
      exact hshows
  case ordered =>
    rw [Option.toList_some, ← List.append_assoc]
    refine List.pairwise_append.mpr ⟨hordered, List.pairwise_singleton .., fun e he e' he' => ?_⟩
    rw [List.mem_singleton.mp he']
    exact hbefore e he
  case place => exact ⟨hi, hrows, hcur, rfl⟩
  case printed =>
    change s.printed ++ _ = _
    simp only [hprinted, opening, closing, Option.toList_some, List.flatMap_cons, List.flatMap_nil,
      List.append_nil, List.append_assoc]
  case mEnd =>
    refine ⟨fun hm => ?_, fun hm => by cases hm⟩
    have hdone := h.mEnd.mp hm
    rw [hpc] at hdone
    cases hdone

/-- Until its last statement the monitor has not set `m_end`. -/
theorem Written.running {m : Int32} {s : State T} {rows : List (List Entry)} {cur : List Entry}
    {word : Option Entry} (h : Written m s rows cur word) (hpc : s.monitor ≠ .done) :
    s.mEnd ≠ true := fun hm => hpc (h.mEnd.mp hm)

/-- The comma. -/
theorem written_comma {m : Int32} {s : State T} {rows : List (List Entry)} {cur : List Entry}
    {word : Option Entry} (h : Written m s rows cur word) {i : Int32} {row : Row}
    {j : Fin timeMapSize} (hpc : s.monitor = .separator i row j) (hlast : j.val + 1 < timeMapSize) :
    Written m
      { s with printed := s.printed ++ [','], monitor := .number i row ⟨j.val + 1, hlast⟩ }
      rows (cur ++ word.toList) none := by
  obtain ⟨hi, hrows, hcur, hword⟩ := (hpc ▸ h.place : Place m _ _ _ (.separator i row j))
  obtain ⟨e, rfl⟩ := Option.isSome_iff_exists.mp hword
  have hrunning := h.running (by rw [hpc]; exact fun hn => by cases hn)
  have hprinted := h.printed
  rw [hpc] at hprinted
  simp only [Option.toList_some, opening, closing, List.flatMap_cons, List.flatMap_nil,
    List.append_nil] at hprinted
  constructor
  case width => exact h.width
  case shows => exact h.shows
  case current =>
    rw [Option.toList_none, List.append_nil]
    exact h.current
  case ordered =>
    rw [Option.toList_none, List.append_nil]
    exact h.ordered
  case place =>
    refine ⟨hi, hrows, ?_, rfl⟩
    rw [Option.toList_some, List.length_append, List.length_singleton, hcur]
  case printed =>
    change s.printed ++ [','] = _
    simp only [hprinted, opening, closing, Option.toList_none, Option.toList_some,
      List.flatMap_nil, List.append_nil, List.map_append, List.map_cons, List.map_nil,
      Table.front_concat, List.append_assoc]
    rfl
  case mEnd => exact ⟨fun hm => absurd hm hrunning, fun hm => by cases hm⟩

theorem opening_afterRow (i : Int32) (row : Row) : opening (afterRow i row) = startedText := by
  cases row <;> rfl

theorem closing_afterRow (i : Int32) (row : Row) : closing (afterRow i row) = [] := by
  cases row <;> rfl

theorem place_afterRow {m i : Int32} {row : Row} {rows : Nat} (hi : 0 ≤ i.toInt)
    (hrows : (rows : Int) = 3 * i.toInt + row.index) :
    Place m (rows + 1) 0 false (afterRow i row) := by
  cases row <;> simp only [Row.index] at hrows
  · exact ⟨hi, by simp only [Row.index]; omega, rfl, rfl⟩
  · exact ⟨hi, by simp only [Row.index]; omega, rfl, rfl⟩
  · exact ⟨hi, by omega, rfl, rfl⟩

/-- The newline completes a row. -/
theorem written_newline {m : Int32} {s : State T} {rows : List (List Entry)} {cur : List Entry}
    {word : Option Entry} (h : Written m s rows cur word) {i : Int32} {row : Row}
    {j : Fin timeMapSize} (hpc : s.monitor = .separator i row j) (hlast : j.val + 1 = timeMapSize) :
    Written m { s with printed := s.printed ++ ['\n'], monitor := afterRow i row }
      (rows ++ [cur ++ word.toList]) [] none := by
  obtain ⟨hi, hrows, hcur, hword⟩ := (hpc ▸ h.place : Place m _ _ _ (.separator i row j))
  obtain ⟨e, rfl⟩ := Option.isSome_iff_exists.mp hword
  have hrunning := h.running (by rw [hpc]; exact fun hn => by cases hn)
  have hprinted := h.printed
  rw [hpc] at hprinted
  simp only [Option.toList_some, opening, closing, List.flatMap_cons, List.flatMap_nil,
    List.append_nil] at hprinted
  constructor
  case width =>
    intro entries hentries
    rcases List.mem_append.mp hentries with hentries | hentries
    · exact h.width entries hentries
    · rw [List.mem_singleton.mp hentries, Option.toList_some, List.length_append,
        List.length_singleton, hcur]
      exact hlast
  case shows =>
    intro n entries hn
    rw [List.getElem?_append] at hn
    split at hn
    · exact h.shows n entries hn
    · rename_i hge
      obtain ⟨hn0, hentries⟩ := List.getElem?_eq_some_iff.mp hn
      rw [List.length_singleton] at hn0
      rw [List.getElem_singleton] at hentries
      have hnth : n = rows.length := by omega
      rw [hnth, ← hentries]
      exact h.current
  case current => exact fun k _ he => by cases (List.getElem?_nil (i := k)).symm.trans he
  case ordered =>
    rw [Option.toList_none, List.append_nil, List.append_nil, List.flatten_append,
      List.flatten_singleton]
    exact h.ordered
  case place =>
    rw [List.length_append, List.length_singleton]
    exact place_afterRow hi hrows
  case printed =>
    change s.printed ++ ['\n'] = opening (afterRow i row) ++ _ ++ closing (afterRow i row)
    have hline := Table.front_write comma (cur.map Entry.value) e.value
    rw [opening_afterRow, closing_afterRow, hprinted]
    simp only [values, List.map_append, List.map_cons, List.map_nil, Table.text_append,
      Option.toList_none, Option.toList_some, List.flatMap_nil, List.append_nil,
      List.append_assoc] at hline ⊢
    rw [hline]
    simp only [Table.text, Table.front, List.flatMap_cons, List.flatMap_nil, List.append_nil]
  case mEnd =>
    refine ⟨fun hm => absurd hm hrunning, fun hm => ?_⟩
    cases row <;> cases hm

/-- A message, at the beginning or the end. -/
theorem written_message {m : Int32} {s : State T} {rows : List (List Entry)} {cur : List Entry}
    {word : Option Entry} (h : Written m s rows cur word) {pc : MonitorPc} {message : List Char}
    (hplace : Place m rows.length cur.length word.isSome pc)
    (hprinted : s.printed ++ message = opening pc ++ (Table.text comma (values rows) ++
      Table.front comma (cur.map Entry.value) ++
      word.toList.flatMap fun e => Table.decimal.write e.value) ++ closing pc)
    (hbefore : s.monitor ≠ .done) (hafter : pc ≠ .done) :
    Written m { s with printed := s.printed ++ message, monitor := pc } rows cur word where
  width := h.width
  shows := h.shows
  current := h.current
  ordered := h.ordered
  place := hplace
  printed := hprinted
  mEnd := ⟨fun hm => absurd (h.mEnd.mp hm) hbefore, fun hm => absurd hm hafter⟩

theorem written_started {m : Int32} {s : State T} {rows : List (List Entry)} {cur : List Entry}
    {word : Option Entry} (h : Written m s rows cur word) (hpc : s.monitor = .started) :
    Written m { s with printed := s.printed ++ startedText, monitor := .test 0 } rows cur word := by
  obtain ⟨hrows, hcur, hword⟩ := (hpc ▸ h.place : Place m _ _ _ .started)
  have hprinted := h.printed
  rw [hpc] at hprinted
  have hempty : rows = [] := List.eq_nil_of_length_eq_zero hrows
  have hcurrent : cur = [] := List.eq_nil_of_length_eq_zero hcur
  have hnone : word = none := Option.isSome_eq_false_iff.mp hword |> Option.isNone_iff_eq_none.mp
  subst hempty hcurrent hnone
  refine written_message h ⟨by decide, rfl, rfl, rfl⟩ ?_ (by rw [hpc]; exact fun hn => by cases hn)
    fun hn => by cases hn
  rw [hprinted]
  rfl

theorem written_finished {m : Int32} {s : State T} {rows : List (List Entry)} {cur : List Entry}
    {word : Option Entry} (h : Written m s rows cur word) (hpc : s.monitor = .finished) :
    Written m { s with printed := s.printed ++ finishedText, monitor := .setEnd } rows cur
      word := by
  have hplace : Place m _ _ _ .finished := hpc ▸ h.place
  have hprinted := h.printed
  rw [hpc] at hprinted
  refine written_message h hplace ?_ (by rw [hpc]; exact fun hn => by cases hn) fun hn => by
    cases hn
  simp only [hprinted, opening, closing, List.append_nil]

/-- The condition of the loop fails only after as many blocks as were asked for. -/
theorem written_test {m : Int32} {s : State T} {rows : List (List Entry)} {cur : List Entry}
    {word : Option Entry} (h : Written m s rows cur word) {i : Int32} (hpc : s.monitor = .test i)
    (hend : ¬ (m = 0 ∨ m ≠ i)) : Written m { s with monitor := .finished } rows cur word := by
  obtain ⟨hi, hrows, hcur, hword⟩ := (hpc ▸ h.place : Place m _ _ _ (.test i))
  obtain ⟨hnonzero, hequal⟩ := not_or.mp hend
  have hm : m = i := Classical.byContradiction hequal
  have hzero : m.toInt ≠ 0 := fun hz => hnonzero (Int32.toInt_inj.mp hz)
  have hpos : 0 < m.toInt := by
    rw [hm] at hzero ⊢
    omega
  exact written_move h ⟨hpos, hm ▸ hrows, hcur, hword⟩ (by rw [hpc]; rfl) (by rw [hpc]; rfl)
    (by rw [hpc]; exact fun hn => by cases hn) fun hn => by cases hn

theorem written_monitor {m : Int32} {s : State T} {rows : List (List Entry)} {cur : List Entry}
    {word : Option Entry} (h : Written m s rows cur word) {b : Bench T} (hc : Counted b s) :
    ∃ rows cur word, Written m (monitorStep m s) rows cur word := by
  unfold monitorStep
  split
  case h_1 => exact ⟨rows, cur, word, h⟩
  case h_2 hpc => exact ⟨rows, cur, word, written_started h hpc⟩
  case h_3 i hpc =>
    obtain hplace : Place m _ _ _ (.test i) := hpc ▸ h.place
    split
    · exact ⟨rows, cur, word, written_move h hplace (by rw [hpc]; rfl) (by rw [hpc]; rfl)
        (by rw [hpc]; exact fun hn => by cases hn) fun hn => by cases hn⟩
    · rename_i hend
      exact ⟨rows, cur, word, written_test h hpc hend⟩
  case h_4 i hpc =>
    obtain ⟨hi, hrows, hcur, hword⟩ := (hpc ▸ h.place : Place m _ _ _ (.delay i))
    have hplace : Place m rows.length cur.length word.isSome (.number i .axis 0) :=
      ⟨hi, by simp only [Row.index]; omega, hcur, hword⟩
    exact ⟨rows, cur, word, written_move h hplace (by rw [hpc]; rfl) (by rw [hpc]; rfl)
      (by rw [hpc]; exact fun hn => by cases hn) fun hn => by cases hn⟩
  case h_5 hpc => exact ⟨rows, cur, _, written_number h hc hpc⟩
  case h_6 i row j hpc =>
    by_cases hlast : j.val + 1 < timeMapSize
    · have hafter : afterSeparator i row j = .number i row ⟨j.val + 1, hlast⟩ := dif_pos hlast
      have hcomma : separator j = ',' := if_neg (Nat.ne_of_lt hlast)
      rw [hafter, hcomma]
      exact ⟨rows, _, none, written_comma h hpc hlast⟩
    · have hfull : j.val + 1 = timeMapSize := by
        have := j.isLt
        omega
      have hafter : afterSeparator i row j = afterRow i row := dif_neg hlast
      have hnewline : separator j = '\n' := if_pos hfull
      rw [hafter, hnewline]
      exact ⟨_, [], none, written_newline h hpc hfull⟩
  case h_7 i hpc =>
    obtain ⟨hi, hrows, hcur, hword⟩ := (hpc ▸ h.place : Place m _ _ _ (.increment i))
    split
    · exact ⟨rows, cur, word, written_move h ⟨hcur, hword⟩ (by rw [hpc]; rfl) (by rw [hpc]; rfl)
        (by rw [hpc]; exact fun hn => by cases hn) fun hn => by cases hn⟩
    · rename_i hmax
      have hsucc := Counter.toInt_succ hmax
      have hplace : Place m rows.length cur.length word.isSome (.test (i + 1)) := by
        refine ⟨?_, ?_, hcur, hword⟩ <;> rw [hsucc]
        · omega
        · exact hrows
      exact ⟨rows, cur, word, written_move h hplace (by rw [hpc]; rfl) (by rw [hpc]; rfl)
        (by rw [hpc]; exact fun hn => by cases hn) fun hn => by cases hn⟩
  case h_8 => exact ⟨rows, cur, word, h⟩
  case h_9 hpc => exact ⟨rows, cur, word, written_finished h hpc⟩
  case h_10 hpc =>
    have hplace : Place m _ _ _ .setEnd := hpc ▸ h.place
    have hprinted := h.printed
    rw [hpc] at hprinted
    exact ⟨rows, cur, word, h.width, h.shows, h.current, h.ordered, hplace, hprinted,
      iff_of_true rfl rfl⟩
  case h_11 => exact ⟨rows, cur, word, h⟩

/-! ### Runs -/

/-- The monitor's text, whatever the others do. -/
structure Reported (measurements : Int32) (b : Bench T) (s : State T) : Prop where
  kept : Kept b s
  unspawned : s.main = .spawnService ∨ s.main = .spawnMonitor → s.monitor = .absent
  written : ∃ rows cur word, Written measurements s rows cur word

theorem reported_initial (measurements : Int32) (b : Bench T) :
    Reported measurements b (initial b) where
  kept := kept_run measurements b []
  unspawned _ := rfl
  written := ⟨[], [], none, {
    width := fun _ h => absurd h List.not_mem_nil
    shows := fun n _ h => by cases (List.getElem?_nil (i := n)).symm.trans h
    current := fun n _ h => by cases (List.getElem?_nil (i := n)).symm.trans h
    ordered := .nil
    place := ⟨rfl, rfl, rfl⟩
    printed := rfl
    mEnd := ⟨fun h => (by cases h), fun h => (by cases h)⟩ }⟩

theorem reported_main {m : Int32} {b : Bench T} {s : State T} (h : Reported m b s)
    (hk : Kept b (mainStep s)) : Reported m b (mainStep s) := by
  refine ⟨hk, ?_, ?_⟩
  · have hunspawned := h.unspawned
    unfold mainStep
    split
    · rename_i hm
      exact fun _ => hunspawned (.inl hm)
    · exact fun hm => by rcases hm with hm | hm <;> cases hm
    · rename_i hm
      split
      · exact fun hm => by rcases hm with hm | hm <;> cases hm
      · exact hunspawned
    all_goals first
      | exact hunspawned
      | exact fun hm => by rcases hm with hm | hm <;> cases hm
  · obtain ⟨rows, cur, word, hw⟩ := h.written
    refine ⟨rows, cur, word, ?_⟩
    have hg : Grows s (mainStep s) := grows_step m .main s
    by_cases hspawn : s.main = .spawnMonitor
    · have habsent := h.unspawned (.inr hspawn)
      have hplace : Place m _ _ _ .absent := habsent ▸ hw.place
      have hmain : mainStep s = { s with monitor := .started, main := .wait } := by
        simp only [mainStep, hspawn]
      have hstarted : Written m { s with monitor := .started } rows cur word :=
        written_move hw hplace (by rw [habsent]; rfl) (by rw [habsent]; rfl)
          (by rw [habsent]; exact fun hn => by cases hn) fun hn => by cases hn
      rw [hmain]
      exact written_congr hstarted ⟨List.prefix_rfl, List.prefix_rfl⟩ rfl rfl rfl
    · have hsame : (mainStep s).monitor = s.monitor ∧ (mainStep s).printed = s.printed ∧
          (mainStep s).mEnd = s.mEnd := by
        unfold mainStep
        split
        case h_2 hm => exact absurd hm hspawn
        all_goals (try split) <;> exact ⟨rfl, rfl, rfl⟩
      exact written_congr hw hg hsame.1 hsame.2.1 hsame.2.2

/-- The text belongs to the monitor. -/
theorem reported_others {m : Int32} {b : Bench T} {a : Action} {s : State T} (h : Reported m b s)
    (hmain : (step m a s).main = s.main) (hmonitor : (step m a s).monitor = s.monitor)
    (hprinted : (step m a s).printed = s.printed) (hmEnd : (step m a s).mEnd = s.mEnd) :
    Reported m b (step m a s) := by
  obtain ⟨rows, cur, word, hw⟩ := h.written
  refine ⟨kept_step m b a s h.kept, ?_, rows, cur, word, ?_⟩
  · rw [hmain, hmonitor]
    exact h.unspawned
  · exact written_congr hw (grows_step m a s) hmonitor hprinted hmEnd

theorem reported_step (m : Int32) (b : Bench T) (a : Action) (s : State T) (h : Reported m b s) :
    Reported m b (step m a s) := by
  cases a with
  | tick =>
    have hsame := tickStep_elim (P := fun s' => s'.main = s.main ∧ s'.monitor = s.monitor ∧
      s'.printed = s.printed ∧ s'.mEnd = s.mEnd) s ⟨rfl, rfl, rfl, rfl⟩
      (fun _ _ => ⟨rfl, rfl, rfl, rfl⟩) (fun _ _ _ => ⟨rfl, rfl, rfl, rfl⟩)
      fun _ => ⟨rfl, rfl, rfl, rfl⟩
    exact reported_others h hsame.1 hsame.2.1 hsame.2.2.1 hsame.2.2.2
  | enter =>
    have hsame := enterStep_elim (P := fun s' => s'.main = s.main ∧ s'.monitor = s.monitor ∧
      s'.printed = s.printed ∧ s'.mEnd = s.mEnd) s ⟨rfl, rfl, rfl, rfl⟩
      fun _ _ _ => ⟨rfl, rfl, rfl, rfl⟩
    exact reported_others h hsame.1 hsame.2.1 hsame.2.2.1 hsame.2.2.2
  | isr => apply reported_others h <;> simp only [step, isrStep] <;> split <;> rfl
  | service =>
    apply reported_others h <;> simp only [step, serviceStep] <;> split <;> (try split) <;> rfl
  | monitor =>
    refine ⟨kept_step m b .monitor s h.kept, fun hm => ?_, ?_⟩
    · have hmain : (monitorStep m s).main = s.main :=
        monitorStep_elim (P := fun s' => s'.main = s.main) m s fun _ _ _ => rfl
      have habsent := h.unspawned (hmain ▸ hm)
      simp only [step, monitorStep, habsent]
    · obtain ⟨rows, cur, word, hw⟩ := h.written
      exact written_monitor hw h.kept.counted
  | main => exact reported_main h (kept_step m b .main s h.kept)

theorem reported_run (m : Int32) (b : Bench T) (acts : List Action) :
    Reported m b (run m (initial b) acts) :=
  Interleaving.run_invariant (reported_step m b) (reported_initial m b) acts

theorem read_report (rows : List (List Int)) :
    Table.read Table.decimal (startedText ++ Table.text comma rows ++ finishedText) =
      [] :: rows ++ [[]] := by
  have hstarted : startedText = "Measurement started".toList ++ ['\n'] := rfl
  have hfinished : finishedText = "Measurement finished".toList ++ ['\n'] := rfl
  rw [hstarted, hfinished]
  exact Table.read_between comma rows (by decide +kernel) (by decide +kernel)

/-- **The finished report**: once `m_end` is set, the number of measurements asked for was
positive, and three rows of twenty numbers for each have been printed between the two messages.
The numbers are the indices and, each at its own moment and one moment after the other, the counts
of what the handler and the service task had read by then; and they can be read back. -/
theorem report_run (measurements : Int32) (b : Bench T) (acts : List Action)
    (hend : (run measurements (initial b) acts).mEnd = true) :
    0 < measurements.toInt ∧ ∃ rows : List (List Entry),
      Report T (run measurements (initial b) acts).handled
        (run measurements (initial b) acts).served rows ∧
      (rows.length : Int) = 3 * measurements.toInt ∧
      (run measurements (initial b) acts).printed =
        startedText ++ Table.text comma (values rows) ++ finishedText ∧
      Table.read Table.decimal (run measurements (initial b) acts).printed =
        [] :: values rows ++ [[]] := by
  obtain ⟨rows, cur, word, hw⟩ := (reported_run measurements b acts).written
  have hdone := hw.mEnd.mp hend
  have hprinted := hw.printed
  have hordered := hw.ordered
  obtain ⟨hpos, hrows, hcur, hword⟩ := (hdone ▸ hw.place : Place measurements _ _ _ .done)
  have hempty : cur = [] := List.eq_nil_of_length_eq_zero hcur
  have hnone : word = none := Option.isSome_eq_false_iff.mp hword |> Option.isNone_iff_eq_none.mp
  subst hempty hnone
  rw [hdone] at hprinted
  simp only [Option.toList_none, List.append_nil] at hordered
  have htext : (run measurements (initial b) acts).printed =
      startedText ++ Table.text comma (values rows) ++ finishedText := by
    rw [hprinted]
    simp only [opening, closing, Table.front, List.map_nil, List.flatMap_nil, Option.toList_none,
      List.append_nil]
  refine ⟨hpos, rows, ⟨hw.width, hw.shows, hordered⟩, hrows, htext, ?_⟩
  rw [htext, read_report]

/-- Ten counts before its next zero, the last one's interrupt still to be answered. -/
def late : Bench timMax where
  ticks := 9990
  interrupt := some 0
  raised_le raised h := by
    cases h
    decide
  raised_dvd raised h := by
    cases h
    decide
  maps := (fun _ => 0, fun _ => 7)

/-- One measurement. The late interrupt is answered first, and the next one in the middle of
the handler's row. -/
def answered : State timMax :=
  run 1 (initial late) (.main :: .main :: .enter :: List.replicate 4 .isr ++
    List.replicate 4 .service ++ List.replicate 45 .monitor ++ List.replicate 70 .tick ++ .enter ::
    List.replicate 4 .isr ++ List.replicate 2 .service ++ List.replicate 30 .tick ++
    List.replicate 2 .service ++ List.replicate 90 .monitor)

/-- A microsecond is almost 28 counts: after 60 of them the handler has waited for two, and
the service task after 90 for three. -/
theorem report_answered : answered.handled = [⟨0, 9990⟩, ⟨10000, 10060⟩] ∧
    answered.served = [9990, 10090] ∧
    Table.read Table.decimal answered.printed = [[],
      [0, 1, 2, 3, 4, 5, 6, 7, 8, 9, 10, 11, 12, 13, 14, 15, 16, 17, 18, 19],
      [0, 0, 1, 0, 0, 0, 0, 0, 0, 0, 0, 0, 0, 0, 0, 0, 0, 0, 0, 0],
      [0, 0, 0, 1, 0, 0, 0, 0, 0, 0, 0, 0, 0, 0, 0, 0, 0, 0, 0, 0], []] ∧
    0 < (1 : Int32).toInt ∧ ∃ rows : List (List Entry),
      Report timMax answered.handled answered.served rows ∧
      (rows.length : Int) = 3 * (1 : Int32).toInt ∧
      answered.printed = startedText ++ Table.text comma (values rows) ++ finishedText ∧
      Table.read Table.decimal answered.printed = [] :: values rows ++ [[]] :=
  ⟨by decide +kernel, by decide +kernel, by decide +kernel,
    report_run 1 late _ (by decide +kernel)⟩

end RealTimeLabs.Response
