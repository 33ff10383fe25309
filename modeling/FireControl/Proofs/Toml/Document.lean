import FireControl.Proofs.Toml.Number
import FireControl.Proofs.Toml.Quoted
import FireControl.Toml.Reader

/-!
# Documents Read Back

A list of sections is written line by line, and the reader takes the text apart into the same lines:
a header and the entries of its section, with an empty line between two sections. What each line
needs for this is little. Names and keys are made of characters that need no quotes, so a key ends
at the blank after it; a value ends with its line; and nothing in front of a line is taken for a
comment or a blank.

From the lines the reader builds a tree. Since no name and no key occurs twice, every header opens a
table that was not there and every entry goes to its end, so the tree has the sections in order,
and each section its entries.

Values are the only thing that can change on the way, and of these only the numbers in single
precision: `Scalar.reread` is the value that is found.

## Main definitions

* `Scalar.reread`: The value that is read where a value was written.
* `Line`: A text with the line that is read from it.
* `Section.Fit`: A section that can be written.
* `tree`: The tree of a list of sections.

## Theorems

* `readValue_write`: A value is read as it was written.
* `readStatements_writeSections`: The lines of a document are read as they were written.
* `parse_writeSections`: A list of sections is read as its tree.
-/

namespace FireControl

namespace Toml

open Quoted (afterNewline?)

/-! ### Values -/

/-- The value that is read where a value was written: a number in single precision is read in
double precision. -/
def Scalar.reread : Scalar → Scalar
  | .single x => .float (Bare.reading .binary32 x.toModel.unpack)
  | v => v

/-- The values that a settings file can hold. -/
def Scalar.IsWord : Scalar → Prop
  | .integer n => 0 ≤ n ∧ n < 2 ^ 64
  | _ => True

theorem readValueIn_bare {c : Char} (h : Bare.isPart c = true) (fuel depth : ℕ) (cs : List Char) :
    readValueIn (fuel + 1) depth (c :: cs) = Bare.read (c :: cs) := by
  have hne (d : Char) (hd : Bare.isPart d = false) (tail : List Char) : c :: cs ≠ d :: tail := by
    intro heq
    rw [(List.cons.inj heq).1, hd] at h
    exact Bool.noConfusion h
  rw [readValueIn]
  · exact hne '"' (by simp [Bare.isPart])
  · exact hne '\'' (by simp [Bare.isPart])
  · exact hne '[' (by simp [Bare.isPart])
  · exact hne '\x7b' (by simp [Bare.isPart])

theorem readValue_bare {text : List Char} {v : Value} (h : Bare.Reads text v) (rest : List Char) :
    readValue (text ++ '\n' :: rest) = some (v, '\n' :: rest) := by
  obtain ⟨c, cs, rfl⟩ := List.exists_cons_of_ne_nil h.ne_nil
  have hread := h.read_eq rest
  rw [List.cons_append] at hread ⊢
  rw [readValue, readValueIn_bare (h.isPart c List.mem_cons_self), hread]

/-- The text of a string starts with a quote. -/
theorem exists_write_string (s : List Char) :
    ∃ cs, Quoted.write s = '"' :: cs ∨ Quoted.write s = '\'' :: cs := by
  unfold Quoted.write
  simp only
  split
  · exact ⟨_, Or.inl rfl⟩
  · exact ⟨_, Or.inr rfl⟩
  · exact ⟨_, Or.inl rfl⟩
  · exact ⟨_, Or.inr rfl⟩

theorem readValue_string (s rest : List Char) :
    readValue (Quoted.write s ++ '\n' :: rest) =
      some (.scalar (.string (String.ofList s)), '\n' :: rest) := by
  have hread := Quoted.read_write s rest
  rcases exists_write_string s with ⟨cs, htext | htext⟩
  · rw [htext, List.cons_append] at hread ⊢
    rw [readValue, readValueIn, hread]
    rfl
  · rw [htext, List.cons_append] at hread ⊢
    rw [readValue, readValueIn, hread]
    rfl

/-- A value is read as it was written. -/
theorem readValue_write {v : Scalar} (h : v.IsWord) (rest : List Char) :
    readValue (v.write ++ '\n' :: rest) = some (.scalar v.reread, '\n' :: rest) := by
  cases v with
  | string s =>
      have hread := readValue_string s.toList rest
      rwa [String.ofList_toList] at hread
  | integer n =>
      rcases h with ⟨hnonneg, hlt⟩
      lift n to ℕ using hnonneg
      exact readValue_bare (Bare.reads_writeInteger (by omega)) rest
  | float x => exact readValue_bare (Bare.reads_double x) rest
  | single x => exact readValue_bare (Bare.reads_single x) rest
  | boolean b => exact readValue_bare (Bare.reads_flag b) rest

/-! ### Lines -/

theorem skipBlanks_cons {c : Char} (h : isBlank c = false) (cs : List Char) :
    skipBlanks (c :: cs) = c :: cs :=
  List.dropWhile_cons_of_neg (by rw [h]; exact Bool.false_ne_true)

theorem not_isBlank_of_isPart {c : Char} (h : Bare.isPart c = true) : isBlank c = false := by
  by_contra hblank
  rw [Bool.not_eq_false, isBlank, Bool.or_eq_true, decide_eq_true_iff, decide_eq_true_iff] at hblank
  rcases hblank with rfl | rfl
  · simp [Bare.isPart] at h
  · simp [Bare.isPart] at h

/-- A value does not start with a blank. -/
theorem skipBlanks_write {v : Scalar} (h : v.IsWord) (tail : List Char) :
    skipBlanks (v.write ++ tail) = v.write ++ tail := by
  -- Everything written bare starts with a character of a bare value, which is no blank.
  have hbare {text : List Char} {w : Value} (hreads : Bare.Reads text w) :
      skipBlanks (text ++ tail) = text ++ tail := by
    obtain ⟨c, cs, rfl⟩ := List.exists_cons_of_ne_nil hreads.ne_nil
    exact skipBlanks_cons (not_isBlank_of_isPart (hreads.isPart c List.mem_cons_self)) _
  cases v with
  | string s =>
      change skipBlanks (Quoted.write s.toList ++ tail) = Quoted.write s.toList ++ tail
      -- A string starts with its quote, of either kind.
      rcases exists_write_string s.toList with ⟨cs, htext | htext⟩
      · rw [htext]
        exact skipBlanks_cons (by decide) _
      · rw [htext]
        exact skipBlanks_cons (by decide) _
  | integer n =>
      rcases h with ⟨hnonneg, hlt⟩
      lift n to ℕ using hnonneg
      exact hbare (Bare.reads_writeInteger (by omega))
  | float x => exact hbare (Bare.reads_double x)
  | single x => exact hbare (Bare.reads_single x)
  | boolean b => exact hbare (Bare.reads_flag b)

/-- A key that needs no quotes. -/
structure IsKey (key : String) : Prop where
  ne_nil : key.toList ≠ []
  isKeyPart : ∀ c ∈ key.toList, isKeyPart c = true

theorem isPart_of_isKeyPart {c : Char} (h : isKeyPart c = true) : Bare.isPart c = true := by
  unfold isKeyPart at h
  unfold Bare.isPart
  rw [h]
  rfl

theorem IsKey.exists_cons {key : String} (h : IsKey key) :
    ∃ c cs, key.toList = c :: cs ∧ Toml.isKeyPart c = true := by
  obtain ⟨c, cs, hlist⟩ := List.exists_cons_of_ne_nil h.ne_nil
  exact ⟨c, cs, hlist, h.isKeyPart c (by rw [hlist]; exact List.mem_cons_self)⟩

/-- What starts with a key starts with none of the characters that mean something else. -/
theorem IsKey.append_ne_cons {key : String} (h : IsKey key) {d : Char}
    (hd : Toml.isKeyPart d = false) (rest tail : List Char) : key.toList ++ rest ≠ d :: tail := by
  obtain ⟨c, cs, hlist, hc⟩ := h.exists_cons
  rw [hlist]
  intro heq
  rw [(List.cons.inj heq).1, hd] at hc
  exact Bool.noConfusion hc

theorem readPart_key {key : String} (hkey : IsKey key) {c : Char} (hc : isKeyPart c = false)
    (rest : List Char) : readPart (key.toList ++ c :: rest) = some (key, c :: rest) := by
  -- The key ends where `c` stands, since that is no character of a key.
  have htake : (key.toList ++ c :: rest).takeWhile isKeyPart = key.toList := by
    rw [List.takeWhile_append_of_pos hkey.isKeyPart,
      List.takeWhile_cons_of_neg (by rw [hc]; exact Bool.false_ne_true), List.append_nil]
  obtain ⟨d, ds, hlist, -⟩ := hkey.exists_cons
  -- A bare key opens no quote, so the two quoted readings are excluded.
  unfold readPart
  split
  · rename_i heq
    exact absurd heq (hkey.append_ne_cons (by decide) _ _)
  · rename_i heq
    exact absurd heq (hkey.append_ne_cons (by decide) _ _)
  · simp only
    rw [htake, List.drop_left, String.ofList_toList, hlist]
    rfl

/-- A key without dots ends where another character stands. -/
theorem readKey_key {key : String} (hkey : IsKey key) {c : Char} (hc : isKeyPart c = false)
    {rest next : List Char} (hnext : skipBlanks (c :: rest) = next)
    (hpoint : ∀ cs, next ≠ '.' :: cs) :
    readKey (key.toList ++ c :: rest) = some (([], key), next) := by
  have hstart : skipBlanks (key.toList ++ c :: rest) = key.toList ++ c :: rest := by
    obtain ⟨d, ds, hlist, hd⟩ := hkey.exists_cons
    rw [hlist]
    exact skipBlanks_cons (not_isBlank_of_isPart (isPart_of_isKeyPart hd)) _
  -- No point follows the key, so it has no further part.
  have hparts : readParts (c :: rest).length (c :: rest) = some ([], next) := by
    rw [List.length_cons, readParts, hnext]
    split
    · exact absurd rfl (hpoint _)
    · rfl
  unfold readKey
  rw [hstart, readPart_key hkey hc]
  simp only [Option.bind_eq_bind, Option.bind_some]
  rw [hparts]
  rfl

theorem readStatement_header {name : String} (hname : IsKey name) (rest : List Char) :
    readStatement ('[' :: name.toList ++ [']', '\n'] ++ rest) = some (.header [] name, rest) := by
  have hkey : readKey (name.toList ++ ']' :: '\n' :: rest) =
      some (([], name), ']' :: '\n' :: rest) :=
    readKey_key hname (by decide) (skipBlanks_cons (by decide) _) (by simp)
  have htext : '[' :: name.toList ++ [']', '\n'] ++ rest =
      '[' :: (name.toList ++ ']' :: '\n' :: rest) := by simp
  rw [htext, readStatement]
  · rw [hkey]
    rfl
  · exact hname.append_ne_cons (by decide) _

theorem readStatement_entry {key : String} (hkey : IsKey key) {v : Scalar} (hv : v.IsWord)
    (rest : List Char) :
    readStatement (writeEntry key v ++ rest) = some (.entry [] key (.scalar v.reread), rest) := by
  have htext : writeEntry key v ++ rest =
      key.toList ++ ' ' :: '=' :: ' ' :: (v.write ++ '\n' :: rest) := by
    simp [writeEntry]
  have hread : readKey (key.toList ++ ' ' :: '=' :: ' ' :: (v.write ++ '\n' :: rest)) =
      some (([], key), '=' :: ' ' :: (v.write ++ '\n' :: rest)) :=
    readKey_key hkey (by decide) rfl (by simp)
  have hblank : skipBlanks (' ' :: (v.write ++ '\n' :: rest)) = v.write ++ '\n' :: rest :=
    skipBlanks_write hv _
  rw [htext, readStatement]
  · rw [hread]
    simp only [Option.bind_eq_bind, Option.bind_some, Bare.expect?, if_true]
    rw [hblank, readValue_write hv]
    rfl
  -- A key starts with neither of the brackets, the one of a table or the two of an array.
  · exact fun tail => hkey.append_ne_cons (by decide) _ _
  · exact hkey.append_ne_cons (by decide) _

/-- A text with the line that is read from it. -/
structure Line (text : List Char) (s : Statement) : Prop where
  exists_body : ∃ body, body ≠ [] ∧ (∀ rest, skipFiller (text ++ rest) = body ++ rest) ∧
    ∀ rest, readStatement (body ++ rest) = some (s, rest)

/-- Nothing is skipped where a line starts. -/
theorem skipFiller_cons {c : Char} (hblank : isBlank c = false)
    (hc : c ≠ '#' ∧ c ≠ '\n' ∧ c ≠ '\r') (cs : List Char) : skipFiller (c :: cs) = c :: cs := by
  have hcomment : skipComment (c :: cs) = c :: cs := by
    unfold skipComment
    -- Each pattern starts with a character that `c` is not.
    split
    · rename_i heq
      exact absurd (List.cons.inj heq).1 hc.1
    · rfl
  have hline : afterNewline? (c :: cs) = none := by
    unfold Quoted.afterNewline?
    split
    · rename_i heq
      exact absurd (List.cons.inj heq).1 hc.2.1
    · rename_i heq
      exact absurd (List.cons.inj heq).1 hc.2.2
    · rfl
  rw [skipFiller, skipLines, skipBlanks_cons hblank, hcomment, hline]

theorem line_header {name : String} (hname : IsKey name) :
    Line ('[' :: name.toList ++ [']', '\n']) (.header [] name) :=
  ⟨_, List.cons_ne_nil _ _, fun _ => skipFiller_cons (by decide) (by decide) _,
    readStatement_header hname⟩

theorem line_entry {key : String} (hkey : IsKey key) {v : Scalar} (hv : v.IsWord) :
    Line (writeEntry key v) (.entry [] key (.scalar v.reread)) := by
  obtain ⟨c, cs, hlist, hc⟩ := hkey.exists_cons
  have htext : writeEntry key v = c :: (cs ++ ' ' :: '=' :: ' ' :: v.write ++ ['\n']) := by
    rw [writeEntry, hlist]
    rfl
  have hne (d : Char) (hd : Toml.isKeyPart d = false) : c ≠ d := by
    rintro rfl
    rw [hc] at hd
    exact Bool.noConfusion hd
  refine ⟨_, ?_, fun rest => ?_, readStatement_entry hkey hv⟩
  · rw [htext]
    exact List.cons_ne_nil _ _
  · rw [htext]
    exact skipFiller_cons (not_isBlank_of_isPart (isPart_of_isKeyPart hc))
      ⟨hne _ (by decide), hne _ (by decide), hne _ (by decide)⟩ _

/-- An empty line may stand in front of a line. -/
theorem Line.after_empty {text : List Char} {s : Statement} (h : Line text s) :
    Line ('\n' :: text) s := by
  rcases h with ⟨body, hbody, hskip, hread⟩
  exact ⟨body, hbody, fun rest => (rfl : skipFiller ('\n' :: (text ++ rest)) = _).trans
    (hskip rest), hread⟩

theorem Line.ne_nil {text : List Char} {s : Statement} (h : Line text s) : text ≠ [] := by
  rcases h with ⟨body, hbody, hskip, -⟩
  rintro rfl
  have hnil : skipFiller [] = body ++ [] := hskip []
  rw [List.append_nil] at hnil
  exact hbody hnil.symm

theorem length_le_flatMap {lines : List (List Char × Statement)}
    (h : ∀ line ∈ lines, Line line.1 line.2) : lines.length ≤ (lines.flatMap Prod.fst).length := by
  induction lines with
  | nil => exact le_refl _
  | cons line lines ih =>
      have hpos := List.length_pos_iff.mpr (h line List.mem_cons_self).ne_nil
      have hrest := ih fun line hline => h line (List.mem_cons_of_mem _ hline)
      rw [List.flatMap_cons, List.length_append, List.length_cons]
      omega

/-- The lines of a text are read one after the other. -/
theorem readStatementsIn_lines {lines : List (List Char × Statement)}
    (h : ∀ line ∈ lines, Line line.1 line.2) {fuel : ℕ} (hfuel : lines.length < fuel) :
    readStatementsIn fuel (lines.flatMap Prod.fst) = some (lines.map Prod.snd) := by
  induction lines generalizing fuel with
  | nil =>
      cases fuel with
      | zero => exact absurd hfuel (Nat.lt_irrefl 0)
      | succ fuel => rfl
  | cons line lines ih =>
      rcases line with ⟨text, s⟩
      rcases h _ List.mem_cons_self with ⟨body, hbody, hskip, hread⟩
      cases fuel with
      | zero => exact absurd hfuel (Nat.not_lt_zero _)
      | succ fuel =>
          have hrest := ih (fun line hline => h line (List.mem_cons_of_mem _ hline))
            (Nat.lt_of_succ_lt_succ hfuel)
          -- What stands in front of the body of a line is skipped, and the body is not empty.
          rw [List.flatMap_cons, readStatementsIn, hskip]
          split
          · rename_i heq
            exact absurd (List.append_eq_nil_iff.mp heq).1 hbody
          · rw [hread]
            simp only [Option.bind_eq_bind, Option.bind_some]
            rw [hrest]
            rfl

/-! ### Sections -/

/-- A section that a settings file can hold: keys that need no quotes, each one once. -/
structure Section.Fit (part : Section) : Prop where
  isKey : IsKey part.name
  isKey_entry : ∀ entry ∈ part.entries, IsKey entry.1
  isWord : ∀ entry ∈ part.entries, entry.2.IsWord
  nodup : (part.entries.map Prod.fst).Nodup

/-- The lines of a section. -/
def Section.lines (part : Section) : List (List Char × Statement) :=
  ('[' :: part.name.toList ++ [']', '\n'], .header [] part.name) ::
    part.entries.map fun (key, v) => (writeEntry key v, .entry [] key (.scalar v.reread))

/-- The lines of a section with an empty line in front. -/
def Section.linesAfterEmpty (part : Section) : List (List Char × Statement) :=
  ('\n' :: '[' :: part.name.toList ++ [']', '\n'], .header [] part.name) :: part.lines.tail

/-- The lines of a list of sections. -/
def sectionLines : List Section → List (List Char × Statement)
  | [] => []
  | part :: rest => part.lines ++ rest.flatMap Section.linesAfterEmpty

theorem flatMap_lines (part : Section) : part.lines.flatMap Prod.fst = part.write := by
  rw [Section.lines, List.flatMap_cons, List.flatMap_map, Section.write]

theorem flatMap_sectionLines (parts : List Section) :
    (sectionLines parts).flatMap Prod.fst = writeSections parts := by
  have hempty (part : Section) :
      part.linesAfterEmpty.flatMap Prod.fst = '\n' :: part.write := by
    rw [← flatMap_lines]
    rfl
  induction parts with
  | nil => rfl
  | cons part rest ih =>
      -- Every section but the first is written behind an empty line.
      rw [sectionLines, List.flatMap_append, flatMap_lines]
      cases rest with
      | nil =>
          rw [List.flatMap_nil, List.flatMap_nil, List.append_nil]
          rfl
      | cons next rest =>
          rw [sectionLines, List.flatMap_append, flatMap_lines] at ih
          rw [List.flatMap_cons, List.flatMap_append, hempty, List.cons_append, ih]
          rfl

theorem Section.Fit.line {part : Section} (h : part.Fit) :
    ∀ line ∈ part.lines, Line line.1 line.2 := by
  intro line hline
  rcases List.mem_cons.mp hline with rfl | hline
  · exact line_header h.isKey
  · rcases List.mem_map.mp hline with ⟨⟨key, v⟩, hmem, rfl⟩
    exact line_entry (h.isKey_entry _ hmem) (h.isWord _ hmem)

theorem line_sectionLines {parts : List Section} (h : ∀ part ∈ parts, part.Fit) :
    ∀ line ∈ sectionLines parts, Line line.1 line.2 := by
  have hempty (part : Section) (hfit : part.Fit) :
      ∀ line ∈ part.linesAfterEmpty, Line line.1 line.2 := by
    intro line hline
    rcases List.mem_cons.mp hline with rfl | hline
    · exact (line_header hfit.isKey).after_empty
    · exact hfit.line line (List.mem_of_mem_tail hline)
  cases parts with
  | nil => exact fun line hline => absurd hline List.not_mem_nil
  | cons part rest =>
      intro line hline
      rcases List.mem_append.mp hline with hline | hline
      · exact (h part List.mem_cons_self).line line hline
      · rcases List.mem_flatMap.mp hline with ⟨next, hnext, hline⟩
        exact hempty next (h next (List.mem_cons_of_mem _ hnext)) line hline

/-- The statements of a section. -/
def Section.statements (part : Section) : List Statement :=
  .header [] part.name ::
    part.entries.map fun (key, v) => .entry [] key (.scalar v.reread)

theorem map_sectionLines (parts : List Section) :
    (sectionLines parts).map Prod.snd = parts.flatMap Section.statements := by
  have hlines (part : Section) : part.lines.map Prod.snd = part.statements := by
    rw [Section.lines, List.map_cons, List.map_map]
    rfl
  have hempty (part : Section) : part.linesAfterEmpty.map Prod.snd = part.statements := by
    rw [← hlines]
    rfl
  cases parts with
  | nil => rfl
  | cons part rest =>
      rw [sectionLines, List.map_append, hlines, List.map_flatMap, List.flatMap_cons]
      exact congrArg (part.statements ++ ·) (List.flatMap_congr fun next _ => hempty next)

/-- The lines of a document are read as they were written. -/
theorem readStatements_writeSections {parts : List Section} (h : ∀ part ∈ parts, part.Fit) :
    readStatements (writeSections parts) = some (parts.flatMap Section.statements) := by
  have hlines := line_sectionLines h
  have hlength := length_le_flatMap hlines
  have hread := readStatementsIn_lines hlines (Nat.lt_succ_of_le hlength)
  rwa [flatMap_sectionLines, map_sectionLines] at hread

/-! ### Trees -/

/-- The tree of a list of sections, as it is read. -/
def tree (parts : List Section) : Entries :=
  parts.map fun part =>
    (part.name, .table .header (part.entries.map fun (key, v) => (key, .scalar v.reread)))

namespace Entries

theorem lookup_eq_none {key : String} {entries : Entries} (h : key ∉ entries.map Prod.fst) :
    entries.lookup key = none := by
  rw [List.lookup_eq_none_iff]
  intro entry hentry
  exact bne_iff_ne.mpr fun heq => h (heq ▸ List.mem_map_of_mem hentry)

theorem lookup_append_of_not_mem {key : String} {entries : Entries}
    (h : key ∉ entries.map Prod.fst) (v : Value) :
    (entries ++ [(key, v)]).lookup key = some v := by
  rw [List.lookup_append, lookup_eq_none h, Option.none_or, List.lookup_cons_self]

theorem put_append_of_not_mem {key : String} {entries : Entries}
    (h : key ∉ entries.map Prod.fst) (v w : Value) :
    put key w (entries ++ [(key, v)]) = entries ++ [(key, w)] := by
  induction entries with
  | nil => simp [put]
  | cons entry entries ih =>
      rw [List.map_cons, List.mem_cons, not_or] at h
      rw [List.cons_append, put, if_neg (Ne.symm h.1), ih h.2, List.cons_append]

end Entries

namespace Draft

theorem add_header {root : Entries} {table : List String} {name : String}
    (h : name ∉ root.map Prod.fst) :
    add ⟨root, table⟩ (.header [] name) =
      some ⟨root ++ [(name, .table .header [])], [name]⟩ := by
  rw [add, Entries.open?, Entries.update?, Entries.define?, Entries.lookup_eq_none h]
  rfl

theorem add_entry {root inner : Entries} {name key : String} (v : Value)
    (hname : name ∉ root.map Prod.fst) (hkey : key ∉ inner.map Prod.fst) :
    add ⟨root ++ [(name, .table .header inner)], [name]⟩ (.entry [] key v) =
      some ⟨root ++ [(name, .table .header (inner ++ [(key, v)]))], [name]⟩ := by
  have hinsert : Entries.insert? [] key v .header inner = some (inner ++ [(key, v)]) := by
    rw [Entries.insert?, Entries.update?, Entries.append?, Entries.lookup_eq_none hkey]
    rfl
  rw [add, Entries.update?, Entries.lookup_append_of_not_mem hname]
  simp only
  rw [if_neg (by simp), Entries.update?, hinsert]
  simp only [Option.map_some, Entries.put_append_of_not_mem hname]

/-- The entries of a section are added to its table in order. -/
theorem foldlM_entries {root : Entries} {name : String} (inner : Entries)
    (entries : List (String × Scalar)) (hname : name ∉ root.map Prod.fst)
    (hnodup : (inner.map Prod.fst ++ entries.map Prod.fst).Nodup) :
    (entries.map fun (key, v) => Statement.entry [] key (.scalar v.reread)).foldlM add
        ⟨root ++ [(name, .table .header inner)], [name]⟩ =
      some ⟨root ++ [(name, .table .header
        (inner ++ entries.map fun (key, v) => (key, .scalar v.reread)))], [name]⟩ := by
  induction entries generalizing inner with
  | nil => simp
  | cons entry entries ih =>
      rcases entry with ⟨key, v⟩
      -- The key is new, so the entry goes to the end of the table.
      have hkey : key ∉ inner.map Prod.fst := by
        intro hmem
        exact (List.disjoint_of_nodup_append hnodup) hmem (by simp)
      have hnodup' : ((inner ++ [(key, Value.scalar v.reread)]).map Prod.fst ++
          entries.map Prod.fst).Nodup := by
        rw [List.map_append, List.append_assoc]
        exact hnodup
      rw [List.map_cons, List.foldlM_cons, add_entry _ hname hkey, Option.bind_eq_bind,
        Option.bind_some, ih _ hnodup', List.append_assoc]
      rfl

end Draft

theorem foldlM_statements {parts : List Section} (root : Entries) (table : List String)
    (hfit : ∀ part ∈ parts, part.Fit)
    (hnodup : (root.map Prod.fst ++ parts.map Section.name).Nodup) :
    ((parts.flatMap Section.statements).foldlM Draft.add ⟨root, table⟩).map Draft.root =
      some (root ++ tree parts) := by
  induction parts generalizing root table with
  | nil => simp [tree]
  | cons part parts ih =>
      have hname : part.name ∉ root.map Prod.fst := by
        intro hmem
        exact (List.disjoint_of_nodup_append hnodup) hmem (by simp)
      -- The header opens a table and its entries fill it, before the other sections follow.
      have hentries := Draft.foldlM_entries [] part.entries hname
        (hfit part List.mem_cons_self).nodup
      have hrest := ih (root ++ tree [part]) [part.name]
        (fun part hpart => hfit part (List.mem_cons_of_mem _ hpart)) (by
          rw [List.map_append, List.append_assoc]
          exact hnodup)
      rw [List.flatMap_cons, List.foldlM_append, Section.statements, List.foldlM_cons,
        Draft.add_header hname]
      simp only [Option.bind_eq_bind, Option.bind_some]
      rw [hentries]
      simp only [Option.bind_some]
      rw [List.append_assoc] at hrest
      exact hrest

/-- A list of sections is read as the tree that was written. -/
theorem parse_writeSections {parts : List Section} (hfit : ∀ part ∈ parts, part.Fit)
    (hnodup : (parts.map Section.name).Nodup) :
    parse (String.ofList (writeSections parts)) = some (tree parts) := by
  -- A document starts with a bracket, if it is not empty, and not with a byte order mark.
  have hmark : skipMark (writeSections parts) = writeSections parts := by
    cases parts with
    | nil => rfl
    | cons part parts => cases parts <;> rfl
  have hbuild : build (parts.flatMap Section.statements) = some (tree parts) :=
    foldlM_statements [] [] hfit (by simpa using hnodup)
  rw [parse, String.toList_ofList, hmark, readStatements_writeSections hfit]
  exact hbuild

end Toml

end FireControl
