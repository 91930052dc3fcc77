import GameLink.Proofs.Toml.Scalar
import GameLink.Toml.Document
import Mathlib.Data.List.Nodup

/-!
# Written documents are read back

A document is read line by line: a header, an assignment or an empty line, each up to the end of
its line, so what a line says does not depend on what follows it.  The statements then fill one
table after the other; a table is placed when the next one starts.

**Plain tables.**  Names are written without quotes.  A table whose names need none, and name each
entry once, is read back as it was.

**Results.**
* `readStatement?_header`, `readStatement?_assignment`: one line.
* `Denotes.table`, `denotes_tables`: the lines of a table and of a document.
* `foldlM_table`, `foldlM_tables`: what the statements put together.
* `read?_write?`: the document.
-/

namespace GameLink
namespace Toml

/-- A name that stands without quotes. -/
def IsBareName (name : String) : Prop :=
  name.toList ≠ [] ∧ ∀ c ∈ name.toList, isBare c = true

instance (name : String) : Decidable (IsBareName name) :=
  decidable_of_iff (name.toList ≠ [] ∧ name.toList.all isBare = true)
    (and_congr_right fun _ => List.all_eq_true)

/-- A table whose names stand without quotes, each for one entry. -/
structure NamedTable.IsPlain (t : NamedTable) : Prop where
  name : IsBareName t.name
  keys : ∀ key ∈ t.entries.map (·.1), IsBareName key
  distinct : (t.entries.map (·.1)).Nodup

variable {name : String} {cs rest : List Char} {c : Char}
variable {statement : Statement} {below : List Statement}

section Keys

/-- What a line with a statement may begin with. -/
def beginsStatement (c : Char) : Bool :=
  isBare c || c == '['

theorem isBlank_of_beginsStatement (h : beginsStatement c = true) : isBlank c = false := by
  rw [isBlank, Bool.or_eq_false_iff, beq_eq_false_iff_ne, beq_eq_false_iff_ne]
  exact ⟨ne_of_class h rfl, ne_of_class h rfl⟩

theorem beginsStatement_of_isBare (h : isBare c = true) : beginsStatement c = true := by
  rw [beginsStatement, h]
  rfl

theorem skipBlanks_cons (h : isBlank c = false) : skipBlanks (c :: cs) = c :: cs :=
  List.dropWhile_cons_of_neg (by simp [h])

/-- A name and what it begins with. -/
theorem IsBareName.exists_cons (h : IsBareName name) :
    ∃ c cs, name.toList = c :: cs ∧ isBare c = true := by
  obtain ⟨hne, hall⟩ := h
  cases hname : name.toList with
  | nil => exact absurd hname hne
  | cons c cs => exact ⟨c, cs, rfl, hall c (hname ▸ List.mem_cons_self)⟩

/-- A name reaches up to the first character that no name has. -/
theorem readKeyPart?_bare (h : IsBareName name) (hc : isBare c = false) :
    readKeyPart? (name.toList ++ c :: rest) = some (name, skipBlanks (c :: rest)) := by
  have hspan : (name.toList ++ c :: rest).takeWhile isBare = name.toList := by
    rw [List.takeWhile_append_of_pos h.2, List.takeWhile_cons_of_neg (by simp [hc]),
      List.append_nil]
  have hleft : (name.toList ++ c :: rest).dropWhile isBare = c :: rest := by
    rw [List.dropWhile_append_of_pos h.2, List.dropWhile_cons_of_neg (by simp [hc])]
  obtain ⟨d, ds, hname, hd⟩ := h.exists_cons
  have hblanks : skipBlanks (name.toList ++ c :: rest) = name.toList ++ c :: rest := by
    rw [hname]
    exact skipBlanks_cons (isBlank_of_beginsStatement (beginsStatement_of_isBare hd))
  have hquote (quote : Char) (hbare : isBare quote = false) :
      (name.toList ++ c :: rest).take 1 ≠ [quote] := by
    rw [hname]
    exact fun heq => ne_of_class hd hbare (List.cons.inj heq).1
  simp only [readKeyPart?, hblanks, if_neg (hquote '"' rfl), if_neg (hquote '\'' rfl), hspan,
    if_neg h.1, hleft, bind, Option.bind, String.ofList_toList]

theorem readKey?_bare (h : IsBareName name) (hc : isBare c = false) {after : List Char}
    (hafter : skipBlanks (c :: rest) = after) (hdot : after? '.' after = none) :
    readKey? (name.toList ++ c :: rest) = some (⟨[], name⟩, after) := by
  have hparts : readKeyParts? (depthLimit - 1) (name.toList ++ c :: rest) =
      some ([name], after) := by
    rw [depthLimit, readKeyParts?, readKeyPart?_bare h hc, hafter]
    simp only [bind, Option.bind, hdot]
  rw [readKey?, hparts]
  rfl

end Keys

section Lines

def NamedTable.header (t : NamedTable) : List Char :=
  ['['] ++ t.name.toList ++ [']', '\n']

/-- The statement that starts a table. -/
def NamedTable.start (t : NamedTable) : Statement :=
  .table ⟨[], t.name⟩

/-- The statement that a written entry makes. -/
def assignmentOf (entry : String × Scalar) : Statement :=
  .assignment ⟨[], entry.1⟩ (.scalar entry.2)

theorem afterStatement?_newline : afterStatement? ('\n' :: cs) = some cs :=
  rfl

theorem readStatement?_header {t : NamedTable} (h : IsBareName t.name) (rest : List Char) :
    readStatement? (t.header ++ rest) = some (t.start, rest) := by
  obtain ⟨c, cs, hname, hc⟩ := h.exists_cons
  have htext : t.header ++ rest = '[' :: (t.name.toList ++ ']' :: '\n' :: rest) := by
    simp [NamedTable.header]
  have hdouble : ('[' :: (t.name.toList ++ ']' :: '\n' :: rest)).take 2 ≠ ['[', '['] := by
    rw [hname]
    exact fun heq => ne_of_class hc rfl (List.cons.inj (List.cons.inj heq).2).1
  have hkey : readKey? (t.name.toList ++ ']' :: '\n' :: rest) =
      some (⟨[], t.name⟩, ']' :: '\n' :: rest) := readKey?_bare h rfl rfl rfl
  rw [htext, readStatement?, if_neg hdouble, if_pos (by rfl), List.drop_one, List.tail_cons, hkey]
  rfl

theorem readValue?_write {scalar : Scalar} (h : scalar.isWritable = true) :
    readValue? (depthLimit - 1) (scalar.write ++ '\n' :: rest) =
      some (.scalar scalar, '\n' :: rest) := by
  obtain ⟨c, cs, hwritten, hbracket, hbrace, -⟩ := exists_first scalar
  have hnone (d : Char) (hd : c ≠ d) : after? d (scalar.write ++ '\n' :: rest) = none := by
    rw [hwritten]
    exact if_neg (Ne.symm hd)
  rw [depthLimit, readValue?, hnone '[' hbracket, hnone '{' hbrace]
  exact readScalar?_write h rest

theorem readAssignment?_write {entry : String × Scalar} (hkey : IsBareName entry.1)
    (hvalue : entry.2.isWritable = true) :
    readAssignment? (readValue? (depthLimit - 1)) (writeAssignment entry ++ rest) =
      some ((⟨[], entry.1⟩, .scalar entry.2), '\n' :: rest) := by
  obtain ⟨c, cs, hwritten, -, -, hblank⟩ := exists_first entry.2
  have htext : writeAssignment entry ++ rest =
      entry.1.toList ++ ' ' :: '=' :: ' ' :: (entry.2.write ++ '\n' :: rest) := by
    simp [writeAssignment]
  have hread : readKey? (entry.1.toList ++ ' ' :: '=' :: ' ' :: (entry.2.write ++ '\n' :: rest)) =
      some (⟨[], entry.1⟩, '=' :: ' ' :: (entry.2.write ++ '\n' :: rest)) :=
    readKey?_bare hkey rfl rfl rfl
  have hskip : skipBlanks (' ' :: (entry.2.write ++ '\n' :: rest)) =
      entry.2.write ++ '\n' :: rest := by
    rw [skipBlanks, List.dropWhile_cons_of_pos rfl, hwritten]
    exact skipBlanks_cons hblank
  rw [readAssignment?, htext, hread]
  simp only [bind, Option.bind, after?, if_true, hskip, readValue?_write hvalue]

theorem readStatement?_assignment {entry : String × Scalar} (hkey : IsBareName entry.1)
    (hvalue : entry.2.isWritable = true) (rest : List Char) :
    readStatement? (writeAssignment entry ++ rest) = some (assignmentOf entry, rest) := by
  obtain ⟨c, cs, hname, hc⟩ := hkey.exists_cons
  have hfirst : (writeAssignment entry ++ rest).head? = some c := by
    simp [writeAssignment, hname]
  have hbracket (n : Nat) (more : List Char) :
      (writeAssignment entry ++ rest).take (n + 1) ≠ '[' :: more := by
    intro heq
    have htake := congrArg List.head? heq
    rw [List.head?_take, if_neg (Nat.succ_ne_zero n), hfirst] at htake
    exact ne_of_class hc rfl (Option.some.inj htake)
  rw [readStatement?, if_neg (hbracket 1 ['[']), if_neg (hbracket 0 []),
    readAssignment?_write hkey hvalue]
  rfl

end Lines

section Statements

/-- What a text says to a reader with fuel for each of its characters. -/
def Denotes (cs : List Char) (statements : List Statement) : Prop :=
  ∀ fuel, cs.length < fuel → readStatements? fuel cs = some statements

namespace Denotes

theorem nil : Denotes [] [] := by
  intro fuel hfuel
  obtain ⟨fuel, rfl⟩ := Nat.exists_eq_succ_of_ne_zero (Nat.ne_of_gt hfuel)
  rfl

theorem emptyLine (h : Denotes cs below) : Denotes ('\n' :: cs) below := by
  intro fuel hfuel
  obtain ⟨fuel, rfl⟩ := Nat.exists_eq_succ_of_ne_zero (Nat.ne_of_gt (Nat.zero_lt_of_lt hfuel))
  rw [readStatements?, skipBlanks_cons rfl, if_neg (List.cons_ne_nil _ _),
    afterStatement?_newline]
  exact h fuel (Nat.lt_of_succ_lt_succ hfuel)

/-- One line, and the lines below it. -/
theorem line (hbegins : beginsStatement c = true)
    (hread : readStatement? (c :: cs ++ rest) = some (statement, rest))
    (h : Denotes rest below) : Denotes (c :: cs ++ rest) (statement :: below) := by
  intro fuel hfuel
  obtain ⟨fuel, rfl⟩ := Nat.exists_eq_succ_of_ne_zero (Nat.ne_of_gt (Nat.zero_lt_of_lt hfuel))
  have hblank : isBlank c = false := isBlank_of_beginsStatement hbegins
  have hstatement : afterStatement? (c :: (cs ++ rest)) = none := by
    have hcomment : ¬ (c :: (cs ++ rest)).head? = some '#' := fun heq =>
      ne_of_class hbegins rfl (Option.some.inj heq)
    rw [afterStatement?, skipBlanks_cons hblank, skipComment, if_neg hcomment,
      afterLineEnd?, if_neg (List.cons_ne_nil _ _), afterNewline?,
      if_neg (ne_of_class hbegins rfl), if_neg fun heq => ne_of_class hbegins rfl heq.1]
  have hrest : rest.length < fuel := by
    rw [List.length_append, List.length_cons] at hfuel
    omega
  rw [List.cons_append] at hread ⊢
  rw [readStatements?, skipBlanks_cons hblank, if_neg (List.cons_ne_nil _ _), hstatement,
    hread]
  simp only [bind, Option.bind, h fuel hrest]

theorem assignments {entries : List (String × Scalar)}
    (hkeys : ∀ key ∈ entries.map (·.1), IsBareName key)
    (hvalues : entries.all (fun entry => entry.2.isWritable) = true)
    (h : Denotes rest below) :
    Denotes (entries.flatMap writeAssignment ++ rest) (entries.map assignmentOf ++ below) := by
  induction entries with
  | nil => exact h
  | cons entry entries ih =>
      rw [List.map_cons, List.forall_mem_cons] at hkeys
      rw [List.all_cons, Bool.and_eq_true] at hvalues
      obtain ⟨c, cs, hname, hc⟩ := hkeys.1.exists_cons
      have hline : writeAssignment entry =
          c :: (cs ++ [' ', '=', ' '] ++ entry.2.write ++ ['\n']) := by
        rw [writeAssignment, hname]
        rfl
      have hread := readStatement?_assignment hkeys.1 hvalues.1
        (entries.flatMap writeAssignment ++ rest)
      rw [List.flatMap_cons, List.append_assoc]
      rw [hline] at hread ⊢
      exact line (beginsStatement_of_isBare hc) hread (ih hkeys.2 hvalues.2)

end Denotes

/-- The statements that a written table makes. -/
def NamedTable.statements (t : NamedTable) : List Statement :=
  t.start :: t.entries.map assignmentOf

theorem Denotes.table {t : NamedTable} (hplain : t.IsPlain) (hvalues : t.isWritable = true)
    (h : Denotes rest below) : Denotes (t.write ++ rest) (t.statements ++ below) := by
  have hentries := h.assignments hplain.keys hvalues
  have hread := readStatement?_header hplain.name (t.entries.flatMap writeAssignment ++ rest)
  have htext : t.write ++ rest = t.header ++ (t.entries.flatMap writeAssignment ++ rest) := by
    rw [NamedTable.write, NamedTable.header, List.append_assoc]
  rw [htext]
  exact Denotes.line (by rfl) hread hentries

/-- The tables of a document, with an empty line between them. -/
theorem denotes_tables {tables : List NamedTable} (hplain : ∀ t ∈ tables, t.IsPlain)
    (hvalues : ∀ t ∈ tables, t.isWritable = true) :
    Denotes (['\n'].intercalate (tables.map NamedTable.write))
      (tables.flatMap NamedTable.statements) := by
  induction tables with
  | nil => exact Denotes.nil
  | cons t tables ih =>
      rw [List.forall_mem_cons] at hplain hvalues
      have hbelow := ih hplain.2 hvalues.2
      rw [List.flatMap_cons]
      cases tables with
      | nil =>
          have htable := Denotes.nil.table hplain.1 hvalues.1
          rw [List.append_nil] at htable
          rw [List.map_cons, List.map_nil, List.intercalate_singleton]
          exact htable
      | cons u tables =>
          rw [List.map_cons, List.map_cons, List.intercalate_cons_cons, List.append_assoc]
          exact Denotes.table hplain.1 hvalues.1 (Denotes.emptyLine hbelow)

end Statements

section Assembly

/-- A written entry as it is read. -/
def valueOf (entry : String × Scalar) : String × Value :=
  (entry.1, .scalar entry.2)

/-- A written table as it is read. -/
def NamedTable.entry (t : NamedTable) : String × Value :=
  (t.name, .table .header (t.entries.map valueOf))

theorem lookup_eq_none {entries : Entries} {key : String} (h : key ∉ entries.map (·.1)) :
    entries.lookup key = none := by
  rw [List.lookup_eq_none_iff]
  intro entry hmem
  rw [bne_iff_ne]
  rintro rfl
  exact h (List.mem_map_of_mem hmem)

theorem foldlM_assignments {entries : List (String × Scalar)} {d : Draft}
    (h : (d.entries.map (·.1) ++ entries.map (·.1)).Nodup) :
    (entries.map assignmentOf).foldlM Draft.add d =
      some { d with entries := d.entries ++ entries.map valueOf } := by
  induction entries generalizing d with
  | nil => simp
  | cons entry entries ih =>
      have hfresh : entry.1 ∉ d.entries.map (·.1) := fun hmem =>
        List.disjoint_of_nodup_append h hmem List.mem_cons_self
      have hadd : d.add (assignmentOf entry) =
          some { d with entries := d.entries ++ [valueOf entry] } := by
        simp only [Draft.add, assignmentOf, Entries.assign, lookup_eq_none hfresh]
        rfl
      have hnext : ((d.entries ++ [valueOf entry]).map (·.1) ++ entries.map (·.1)).Nodup := by
        rwa [List.map_append, List.append_assoc]
      rw [List.map_cons, List.foldlM_cons, hadd]
      simp only [bind, Option.bind]
      rw [ih hnext]
      simp [List.append_assoc]

/-- A table is added behind those that are complete. -/
theorem foldlM_table {t : NamedTable} {d : Draft} {done : Entries} (hplain : t.IsPlain)
    (hdone : d.finish = some done) (hname : t.name ∉ done.map (·.1)) :
    ∃ next, t.statements.foldlM Draft.add d = some next ∧
      next.finish = some (done ++ [t.entry]) := by
  have hstart : d.add t.start = some ⟨done, .table ⟨[], t.name⟩, []⟩ := by
    simp only [Draft.add, NamedTable.start, hdone, Option.bind_some, Draft.startTable,
      Entries.alter, lookup_eq_none hname, Option.map_some]
  refine ⟨⟨done, .table ⟨[], t.name⟩, t.entries.map valueOf⟩, ?_, rfl⟩
  rw [NamedTable.statements, List.foldlM_cons, hstart]
  exact foldlM_assignments (d := ⟨done, .table ⟨[], t.name⟩, []⟩) hplain.distinct

theorem foldlM_tables {tables : List NamedTable} {d : Draft} {done : Entries}
    (hplain : ∀ t ∈ tables, t.IsPlain) (hdone : d.finish = some done)
    (hnames : (done.map (·.1) ++ tables.map (·.name)).Nodup) :
    ∃ last, (tables.flatMap NamedTable.statements).foldlM Draft.add d = some last ∧
      last.finish = some (done ++ tables.map NamedTable.entry) := by
  -- The last table is not placed yet: what the draft comes to is carried along, not the draft.
  induction tables generalizing d done with
  | nil => exact ⟨d, rfl, by rwa [List.map_nil, List.append_nil]⟩
  | cons t tables ih =>
      rw [List.forall_mem_cons] at hplain
      have hfresh : t.name ∉ done.map (·.1) := fun hmem =>
        List.disjoint_of_nodup_append hnames hmem List.mem_cons_self
      obtain ⟨next, hrun, hfinish⟩ := foldlM_table hplain.1 hdone hfresh
      have hnext : ((done ++ [t.entry]).map (·.1) ++ tables.map (·.name)).Nodup := by
        rwa [List.map_append, List.append_assoc]
      obtain ⟨last, hlast, hcomplete⟩ := ih hplain.2 hfinish hnext
      refine ⟨last, ?_, ?_⟩
      · rw [List.flatMap_cons, List.foldlM_append, hrun]
        exact hlast
      · rwa [List.append_assoc] at hcomplete

end Assembly

section Documents

theorem withoutMark_tables (tables : List NamedTable) :
    withoutMark (['\n'].intercalate (tables.map NamedTable.write)) =
      ['\n'].intercalate (tables.map NamedTable.write) := by
  refine if_neg ?_
  match tables with
  | [] => exact nofun
  | [t] => exact fun h => absurd (Option.some.inj h) (by decide)
  | t :: u :: tables =>
      rw [List.map_cons, List.map_cons, List.intercalate_cons_cons]
      exact fun h => absurd (Option.some.inj h) (by decide)

/-- Tables that can be written are read back, in their order and with all their entries. -/
theorem read?_write? {tables : List NamedTable} {text : String}
    (hplain : ∀ t ∈ tables, t.IsPlain) (hnames : (tables.map (·.name)).Nodup)
    (h : write? tables = some text) : read? text = some (tables.map NamedTable.entry) := by
  obtain ⟨hvalues, htext⟩ := Option.ite_none_right_eq_some.mp h
  obtain rfl := Option.some.inj htext
  have hstatements := denotes_tables hplain (List.all_eq_true.mp hvalues) _ (Nat.lt_succ_self _)
  have hempty : Draft.empty.finish = some [] := rfl
  obtain ⟨last, hrun, hfinish⟩ := foldlM_tables hplain hempty hnames
  simp only [read?, String.toList_ofList, withoutMark_tables]
  rw [hstatements, Option.bind_some, ofStatements?, hrun]
  exact hfinish

end Documents

end Toml
end GameLink
